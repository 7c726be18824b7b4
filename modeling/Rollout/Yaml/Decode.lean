import Rollout.Keyed
import Rollout.Yaml.Scalar
import Rollout.Yaml.Expand

/-! Reading typed values from nodes whose aliases were followed. The first problem in document order is the
one reported. -/

namespace Rollout.Yaml

inductive Error where
  | illFormed
  | unknownField (name : String)
  | duplicateField (name : String)
  /-- A variable whose value is no scalar. -/
  | notScalar (name : String)
  | mistyped
  | tooDeep
  | tooManyAliases
  /-- A tag of the document's own where a value may have one of several shapes. -/
  | strayTag
  /-- A key twice in a mapping below a variable. -/
  | repeatedKey
deriving DecidableEq

def Error.message : Error → String
  | illFormed => "the text is not well formed"
  | unknownField name => "unknown field '" ++ name ++ "'"
  | duplicateField name => "field '" ++ name ++ "' occurs twice"
  | notScalar name => "variable '" ++ name ++ "' must be a scalar"
  | mistyped => "a value has the wrong type"
  | tooDeep => "values are nested too deeply"
  | tooManyAliases => "aliases repeat too much of the text"
  | strayTag => "a tag is not allowed here"
  | repeatedKey => "a key occurs twice in a mapping"

abbrev Decoder (α : Type) := Node → Except Error α

/-- What a reader says of a node of the wrong sort; an alias is left only where too many were met. -/
def Error.of : Node → Error
  | .alias _ => tooManyAliases
  | _ => mistyped

def ownTag? (tag : Option Tag) : Option String := tag.bind Tag.ownName?

inductive Value where
  | null
  | bool (b : Bool)
  | int (n : Int)
  | real (text : String)
  | text (s : String)
  | sequence (items : List Value)
  | mapping (entries : List (Value × Value))
  | tagged (tag : String) (v : Value)

namespace Value

def isZero (text : String) : Bool := text == "0.0" || text == "-0.0"

mutual

/-- Equality of values. The two zeros are one, and the entries of a mapping have no order. -/
def same : Value → Value → Bool
  | null, null => true
  | bool a, bool b => a == b
  | int a, int b => a == b
  | real a, real b => a == b || (isZero a && isZero b)
  | text a, text b => a == b
  | sequence as, sequence bs => sameItems as bs
  | mapping as, mapping bs => as.length == bs.length && allFound as bs
  | tagged s a, tagged t b => s == t && same a b
  | _, _ => false

def sameItems : List Value → List Value → Bool
  | [], [] => true
  | a :: as, b :: bs => same a b && sameItems as bs
  | _, _ => false

def allFound : List (Value × Value) → List (Value × Value) → Bool
  | [], _ => true
  | (k, a) :: as, bs => bs.any (fun e => same k e.1 && same a e.2) && allFound as bs

end

def ofKind (s : String) : Kind → Except Error Value
  | .null => .ok null
  | .bool b => .ok (bool b)
  | .int n => .ok (int n)
  | .wide => .error .mistyped
  | .real t => .ok (real t)
  | .text => .ok (text s)

def ofScalar (tag : Option Tag) (style : Style) (s : String) : Except Error Value :=
  match scalarKind? tag style s with
  | none => .error .mistyped
  | some k => ofKind s k

def wrap (tag : Option Tag) (v : Value) : Value :=
  match ownTag? tag with
  | none => v
  | some t => tagged t v

/-- Reads entries in order; each key must be new. -/
def entries (read : Node → Except Error Value) :
    List (Value × Value) → List (Node × Node) → Except Error (List (Value × Value))
  | out, [] => .ok out.reverse
  | out, (k, v) :: es => do
    let key ← read k
    if out.any fun e => same e.1 key then .error .repeatedKey
    else
      let value ← read v
      entries read ((key, value) :: out) es

def read : Nat → Node → Except Error Value
  | _, .scalar tag style s =>
    if (ownTag? tag).isSome then (ofScalar none style s).map (wrap tag) else ofScalar tag style s
  | 0, .sequence .. => .error .tooDeep
  | depth + 1, .sequence tag items => (items.mapM (read depth)).map fun vs => wrap tag (sequence vs)
  | 0, .mapping .. => .error .tooDeep
  | depth + 1, .mapping tag es => (entries (read depth) [] es).map fun es => wrap tag (mapping es)
  | _, n => .error (.of n)

end Value

/-- Goes through a node that is read as one of several shapes, before the shape is chosen: tags of the
document's own and long integers are refused, and so is too deep a nesting. -/
def survey : Nat → Node → Except Error Unit
  | _, .scalar tag style s =>
    if (ownTag? tag).isSome then .error .strayTag
    else
      match scalarKind? tag style s with
      | none | some .wide => .error .mistyped
      | _ => .ok ()
  | depth, .sequence tag items =>
    if (ownTag? tag).isSome then .error .strayTag
    else
      match depth with
      | 0 => .error .tooDeep
      | depth + 1 => items.forM (survey depth)
  | depth, .mapping tag es =>
    if (ownTag? tag).isSome then .error .strayTag
    else
      match depth with
      | 0 => .error .tooDeep
      | depth + 1 => es.forM fun e => do survey depth e.1; survey depth e.2
  | _, n => .error (.of n)

namespace Decode

variable {α σ : Type}

/-- A plain scalar with nothing in it stands for an empty collection. -/
def isVoid : Node → Bool
  | .scalar _ .plain "" => true
  | _ => false

def text : Decoder String
  | .scalar _ _ s => .ok s
  | n => .error (.of n)

def optional (read : Decoder α) : Decoder (Option α) := fun n =>
  let present : Except Error Bool :=
    match n with
    | .scalar tag .plain s =>
      match tag with
      | none => .ok (s ≠ "" ∧ !isNullWord s)
      | some t =>
        if t = Tag.core "null" then if isNullWord s then .ok false else .error .mistyped else .ok true
    | _ => .ok true
  match present with
  | .error e => .error e
  | .ok false => .ok none
  | .ok true => (read n).map some

/-- An integer from 0 to `2 ^ 64 - 1`, plain or in a literal block with the integer tag. A minus sign is
refused, also in front of zero. -/
def unsigned : Decoder UInt64
  | .scalar tag style s =>
    if style = .plain ∨ (style = .literal ∧ tag = some (Tag.core "int")) then
      match natural? s.toList with
      | some n => if n < UInt64.size then .ok (UInt64.ofNat n) else .error .mistyped
      | none => .error .mistyped
    else .error .mistyped
  | n => .error (.of n)

def list (read : Decoder α) : Decoder (List α)
  | .sequence _ items => items.mapM read
  | n => if isVoid n then .ok [] else .error (.of n)

/-- Reads entries in order; of equal keys the last wins. -/
def keyedEntries (read : Decoder α) : Keyed α → List (Node × Node) → Except Error (Keyed α)
  | m, [] => .ok m
  | m, (k, v) :: es => do
    let key ← text k
    let value ← read v
    keyedEntries read (m.insert key value) es

def keyed (read : Decoder α) : Decoder (Keyed α)
  | .mapping _ es => keyedEntries read ∅ es
  | n => if isVoid n then .ok ∅ else .error (.of n)

structure Field (σ : Type) where
  name : String
  read : Node → σ → Except Error σ

def field (name : String) (read : Decoder α) (set : σ → α → σ) : Field σ :=
  ⟨name, fun n s => (read n).map (set s)⟩

/-- Reads fields in order. A key is looked at before its value: it must be a known one that has not
occurred. -/
def recordFields (fields : List (Field σ)) : List String → σ → List (Node × Node) → Except Error σ
  | _, s, [] => .ok s
  | seen, s, (k, v) :: es => do
    let key ← text k
    match fields.find? (·.name = key) with
    | none => .error (.unknownField key)
    | some f =>
      if seen.contains key then .error (.duplicateField key)
      else
        let s ← f.read v s
        recordFields fields (key :: seen) s es

/-- A record with these fields and no others; those that do not occur keep their value in `init`. -/
def record (fields : List (Field σ)) (init : σ) : Decoder σ
  | .mapping _ es => recordFields fields [] init es
  | n => if isVoid n then .ok init else .error (.of n)

end Decode

end Rollout.Yaml
