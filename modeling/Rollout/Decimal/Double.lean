/-! Double-precision numbers as exact values `m * 2 ^ q`: the one nearest to a decimal, and the fewest
decimal digits that are still nearest to it. All arithmetic is on natural numbers. -/

namespace Rollout.Decimal

/-- A finite double without its sign: `m * 2 ^ q` with `m < 2 ^ 53` and `-1074 ≤ q ≤ 971`. -/
structure Double where
  m : Nat
  q : Int
deriving DecidableEq

structure Digits where
  digits : Nat
  exponent : Int
deriving DecidableEq

namespace Double

def zero : Double := ⟨0, -1074⟩

def scaleUp (n b : Nat) (k : Int) : Nat := n * Nat.pow b k.toNat

/-- The quotient rounded to the nearest whole number, a half to the even one. -/
def roundDiv (num den : Nat) : Nat :=
  let f := num / den
  let r := num % den
  if den < 2 * r ∨ (2 * r = den ∧ f % 2 = 1) then f + 1 else f

/-- The double nearest to `num / den`, a tie going to the even one; none beyond the largest double. -/
def nearest (num den : Nat) : Option Double :=
  if num = 0 then some zero
  else
    let q₀ : Int := max ((num.log2 : Int) - den.log2 - 53) (-1074)
    let q := if Nat.pow 2 53 ≤ scaleUp num 2 (-q₀) / scaleUp den 2 q₀ then q₀ + 1 else q₀
    let m := roundDiv (scaleUp num 2 (-q)) (scaleUp den 2 q)
    let d : Double := if m = Nat.pow 2 53 then ⟨Nat.pow 2 52, q + 1⟩ else ⟨m, q⟩
    if d.q ≤ 971 then some d else none

/-- The double nearest to `n * 10 ^ e`. Exponents far outside the range are settled by size alone. -/
def ofDecimal (n : Nat) (e : Int) : Option Double :=
  if n = 0 then some zero
  else
    let size : Int := (Nat.toDigits 10 n).length + e
    if 400 < size then none
    else if size < -400 then some zero
    else nearest (scaleUp n 10 e) (scaleUp 1 10 (-e))

/-- The decimal exponent of the leading digit of `num / den`, for a positive value. -/
def leadingExponent (num den : Nat) : Int :=
  if den ≤ num then (Nat.toDigits 10 (num / den)).length - 1
  else
    let up := (List.range 400).find? fun j => den ≤ num * Nat.pow 10 j
    Int.negOfNat (up.getD 400)

def dropZeros : Nat → Digits → Digits
  | 0, d => d
  | fuel + 1, d => if d.digits % 10 = 0 then dropZeros fuel ⟨d.digits / 10, d.exponent + 1⟩ else d

/-- The nearest decimal with the fewest digits among those that round to this double. The interval of such
decimals is `low / den` to `high / den`, ends included when `m` is even. -/
def shortest (d : Double) : Digits :=
  let den := scaleUp 1 2 (2 - d.q)
  let unit := scaleUp 1 2 (d.q - 2)
  let mid := 4 * d.m * unit
  let high := (4 * d.m + 2) * unit
  let low := (if d.m = Nat.pow 2 52 ∧ -1074 < d.q then 4 * d.m - 1 else 4 * d.m - 2) * unit
  let lead := leadingExponent mid den
  let within (x : Nat) (k : Int) : Bool :=
    let v := scaleUp x 10 k * den
    let l := scaleUp low 10 (-k)
    let h := scaleUp high 10 (-k)
    if d.m % 2 = 0 then l ≤ v && v ≤ h else l < v && v < h
  let grid? (n : Nat) : Option Digits :=
    let k : Int := lead - n
    let step := scaleUp den 10 k
    let x := scaleUp mid 10 (-k) / step
    let r := scaleUp mid 10 (-k) % step
    match within x k, within (x + 1) k with
    | true, true => some ⟨if 2 * r < step ∨ (2 * r = step ∧ x % 2 = 0) then x else x + 1, k⟩
    | true, false => some ⟨x, k⟩
    | false, true => some ⟨x + 1, k⟩
    | false, false => none
  dropZeros 20 (((List.range 17).findSome? grid?).getD ⟨d.m, 0⟩)

end Double

end Rollout.Decimal
