import Rollout.Decimal.Double

/-! Text of a double: positional where the leading digit stands for `10 ^ -5` to `10 ^ 15`, scientific
elsewhere, and always with a fraction in positional form. -/

namespace Rollout.Decimal

/-- Which decimal exponents of the leading digit are written positionally. -/
structure Layout where
  least : Int
  greatest : Int

def Layout.variable : Layout := ⟨-5, 15⟩

def zeros (n : Nat) : String := String.ofList (List.replicate n '0')

def Digits.render (layout : Layout) (d : Digits) : String :=
  let ds := Nat.toDigits 10 d.digits
  let lead : Int := d.exponent + ds.length - 1
  if layout.least ≤ lead ∧ lead ≤ layout.greatest then
    if 0 ≤ d.exponent then String.ofList ds ++ zeros d.exponent.toNat ++ ".0"
    else if 0 ≤ lead then
      String.ofList (ds.take (lead + 1).toNat) ++ "." ++ String.ofList (ds.drop (lead + 1).toNat)
    else "0." ++ zeros (-lead - 1).toNat ++ String.ofList ds
  else
    match ds with
    | [c] => String.ofList [c] ++ "e" ++ toString lead
    | _ => String.ofList (ds.take 1) ++ "." ++ String.ofList (ds.drop 1) ++ "e" ++ toString lead

/-- A signed double in the shortest form that reads back as the same double. -/
def Double.render (layout : Layout) (negative : Bool) (d : Double) : String :=
  let body := if d.m = 0 then "0.0" else d.shortest.render layout
  if negative then "-" ++ body else body

end Rollout.Decimal
