import Rollout.Error
import Rollout.Plan

/-! What validating and running a task means is up to a provisioner. It has a state of its own and may
refuse any task. -/

namespace Rollout

structure Attempt (σ : Type) where
  result : Except TaskError Unit
  state : σ
  lines : List Line := []

structure Provisioner (σ : Type) where
  attempt : TaskPhase → Task → Context → σ → Attempt σ

/-- Counts of the tasks that came through a rehearsal. -/
structure DryRun where
  validated : Nat := 0
  ran : Nat := 0
deriving DecidableEq

namespace DryRun

def unexpanded (field : String) : Bool :=
  Text.contains ['\x7b', '\x7b'] field.toList

/-- Rejects the first field that still holds a template and changes nothing anywhere. -/
def provisioner : Provisioner DryRun where
  attempt phase task c s :=
    match phase with
    | .validate =>
      match (fields task.target).find? unexpanded with
      | some field => ⟨.error ⟨"unexpanded template: " ++ field⟩, s, []⟩
      | none => ⟨.ok (), { s with validated := s.validated + 1 }, []⟩
    | .run =>
      ⟨.ok (), { s with ran := s.ran + 1 },
        [⟨.info, "dry run", [("mode", .text c.mode.label), ("kind", .text task.target.kind),
          ("task", .text task.description)]⟩]⟩

end DryRun

end Rollout
