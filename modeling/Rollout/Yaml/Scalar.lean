import Rollout.Decimal.Render
import Rollout.Yaml.Token.Basic

/-! What a scalar is. A plain scalar is null, a boolean, a number or text by its spelling; a quoted one is
text; a core tag forces its type. -/

namespace Rollout.Yaml

inductive Kind where
  | null
  | bool (b : Bool)
  /-- An integer from `-2 ^ 63` to `2 ^ 64 - 1`. -/
  | int (n : Int)
  /-- A longer integer within 128 bits, which nothing reads. -/
  | wide
  /-- A floating-point number in its shortest spelling. -/
  | real (text : String)
  | text
deriving DecidableEq

def isNullWord (s : String) : Bool :=
  s == "~" || s == "null" || s == "Null" || s == "NULL"

def boolWord? (s : String) : Option Bool :=
  if s = "true" ∨ s = "True" ∨ s = "TRUE" then some true
  else if s = "false" ∨ s = "False" ∨ s = "FALSE" then some false
  else none

def digitValue? (base : Nat) (c : Char) : Option Nat :=
  (hexValue? c).bind fun d => if d < base then some d else none

def digits? (base : Nat) (cs : List Char) : Option Nat :=
  if cs = [] then none
  else cs.foldl (fun n c => n.bind fun n => (digitValue? base c).map fun d => base * n + d) (some 0)

def dropSign : List Char → List Char
  | '-' :: cs => cs
  | '+' :: cs => cs
  | cs => cs

/-- Only digits, more than one, the first of them a zero: text, not a number. -/
def isPaddedNumber (cs : List Char) : Bool :=
  match dropSign cs with
  | '0' :: c :: ds => (c :: ds).all Char.isDigit
  | _ => false

def magnitude? : List Char → Option Nat
  | '0' :: 'x' :: ds => digits? 16 ds
  | '0' :: 'o' :: ds => digits? 8 ds
  | '0' :: 'b' :: ds => digits? 2 ds
  | ds => if isPaddedNumber ds then none else digits? 10 ds

/-- An integer without a minus sign; a plus sign may stand in front. -/
def natural? : List Char → Option Nat
  | '+' :: cs => magnitude? cs
  | cs => magnitude? cs

def intKind? : List Char → Option Kind
  | '-' :: cs =>
    (magnitude? cs).bind fun n =>
      if n ≤ Nat.pow 2 63 then some (.int (-n)) else if n ≤ Nat.pow 2 127 then some .wide else none
  | cs =>
    (natural? cs).bind fun n =>
      if n < Nat.pow 2 64 then some (.int n) else if n < Nat.pow 2 128 then some .wide else none

/-- The exponent of a decimal: a letter, an optional sign and digits; nothing stands for zero. -/
def exponent? : List Char → Option Int
  | [] => some 0
  | c :: cs =>
    if c = 'e' ∨ c = 'E' then
      match cs with
      | '-' :: ds => (digits? 10 ds).map fun n => -n
      | '+' :: ds => (digits? 10 ds).map fun n => n
      | ds => (digits? 10 ds).map fun n => n
    else none

/-- An unsigned decimal with optional fraction and exponent, if it is within the range of doubles. -/
def double? (cs : List Char) : Option Decimal.Double :=
  let whole := cs.takeWhile Char.isDigit
  let rest := cs.dropWhile Char.isDigit
  let tail := if rest.head? = some '.' then rest.drop 1 else []
  let fraction := tail.takeWhile Char.isDigit
  let rest := if rest.head? = some '.' then tail.dropWhile Char.isDigit else rest
  match digits? 10 (whole ++ fraction), exponent? rest with
  | some n, some e => Decimal.Double.ofDecimal n (e - fraction.length)
  | _, _ => none

def isInfinity (s : String) : Bool := s == ".inf" || s == ".Inf" || s == ".INF"

def realKind? (s : String) : Option Kind :=
  let signed := s.toList
  let unsigned := if signed.head? = some '+' then signed.drop 1 else signed
  if isInfinity (String.ofList unsigned) then some (.real ".inf")
  else if s = "-.inf" ∨ s = "-.Inf" ∨ s = "-.INF" then some (.real "-.inf")
  else if s = ".nan" ∨ s = ".NaN" ∨ s = ".NAN" then some (.real ".nan")
  else
    match signed with
    | '-' :: cs => (double? cs).map fun d => .real (d.render .variable true)
    | _ => (double? unsigned).map fun d => .real (d.render .variable false)

def plainKind (s : String) : Kind :=
  if s = "" ∨ isNullWord s then .null
  else
    match boolWord? s with
    | some b => .bool b
    | none =>
      match intKind? s.toList with
      | some k => k
      | none => if isPaddedNumber s.toList then .text else (realKind? s).getD .text

/-- The kind of a scalar; nothing if its tag does not allow its text. A tag that starts with an exclamation
mark leaves a plain scalar as it is. -/
def scalarKind? (tag : Option Tag) (style : Style) (s : String) : Option Kind :=
  match tag with
  | none => some (if style = .plain then plainKind s else .text)
  | some t =>
    if t = Tag.core "bool" then (boolWord? s).map .bool
    else if t = Tag.core "int" then intKind? s.toList
    else if t = Tag.core "float" then realKind? s
    else if t = Tag.core "null" then if isNullWord s then some .null else none
    else if t.isMarked ∧ style = .plain then some (plainKind s)
    else some .text

end Rollout.Yaml
