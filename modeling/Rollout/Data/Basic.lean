/-! Plain data: what documents, plans and reports are written as, and what settings are read from. -/

namespace Rollout

/-- A tree of plain values. The fields of a record keep their order. -/
inductive Data where
  | null
  | bool (b : Bool)
  | int (n : Int)
  /-- A number written with a fraction or an exponent, as it was written. -/
  | real (text : String)
  | text (s : String)
  | list (items : List Data)
  | record (fields : List (String × Data))

namespace Data

instance : Inhabited Data := ⟨null⟩

def nat (n : Nat) : Data := int n

def texts (ss : List String) : Data := list (ss.map text)

/-- The value of the last field of that name. -/
def field? (name : String) : List (String × Data) → Option Data
  | [] => none
  | (k, d) :: fs => (field? name fs).or (if k = name then some d else none)

end Data

end Rollout
