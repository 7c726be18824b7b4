import Rollout.Plan

/-! What the commands print about plans and finished deployments. -/

namespace Rollout

structure Report where
  tier : Tier
  tasks : Nat
  mode : Mode
deriving DecidableEq

namespace Report

def text (r : Report) (validateOnly : Bool) : String :=
  if r.tasks = 0 then "[" ++ r.mode.label ++ "] nothing to do"
  else "[" ++ r.mode.label ++ "] " ++ toString r.tasks ++ " task(s) "
    ++ (if validateOnly then "validated" else "applied") ++ " from " ++ r.tier.text

def encode (r : Report) : Data :=
  .record [("tier", .text r.tier.key), ("tasks", .nat r.tasks), ("mode", .text r.mode.label)]

end Report

namespace Plan

def ordinal (n : Nat) : String :=
  let s := toString n
  String.ofList (List.replicate (3 - s.length) ' ') ++ s

def rule : String := String.ofList (List.replicate 24 (Char.ofNat 0x2550))

def taskLines : Nat → List Task → List String
  | _, [] => []
  | n, t :: ts => ("  " ++ ordinal n ++ ". " ++ t.description) :: taskLines (n + 1) ts

/-- The plan for people to read. -/
def listing (p : Plan) (file : String) (mode : Mode) : String :=
  let head := ["Plan for: " ++ file ++ " [" ++ mode.label ++ "]", rule]
  let body :=
    if p.isEmpty then ["  Nothing to do."]
    else ["  tier: " ++ p.tier.text, ""] ++ taskLines 1 p.tasks
      ++ ["", "  " ++ toString p.size ++ " task(s) planned."]
  String.join ((head ++ body).map (· ++ "\n"))

end Plan

end Rollout
