import Rollout.Data.Basic

/-! Settings of one invocation. -/

namespace Rollout

structure Config where
  document : String := "maestro.yml"
  validateOnly : Bool := false
  live : Option Bool := none
deriving DecidableEq

namespace Config

def encode (c : Config) : Data :=
  .record [("document", .text c.document), ("validate_only", .bool c.validateOnly),
    ("live", (c.live.map .bool).getD .null)]

def optFlag? : Option Data → Option (Option Bool)
  | none | some .null => some none
  | some (.bool b) => some (some b)
  | _ => none

/-- Reads settings from a record, whose other fields are ignored, or from a list of the three values. -/
def decode? : Data → Option Config
  | .record fs =>
    match Data.field? "document" fs, Data.field? "validate_only" fs with
    | some (.text document), some (.bool validateOnly) =>
      (optFlag? (Data.field? "live" fs)).map fun live => ⟨document, validateOnly, live⟩
    | _, _ => none
  | .list [.text document, .bool validateOnly, live] =>
    (optFlag? (some live)).map fun live => ⟨document, validateOnly, live⟩
  | _ => none

end Config

end Rollout
