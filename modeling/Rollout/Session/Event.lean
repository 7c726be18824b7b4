import Rollout.Document.Basic
import Rollout.Phase
import Rollout.Plan
import Rollout.Trace

/-! What a session reports while it goes on. -/

namespace Rollout

inductive Event where
  /-- An import replaced an entry of the document. -/
  | overridden (o : Override)
  | resolved (tier : Tier) (tasks : Nat)
  /-- Variables were bound; so many fields changed. -/
  | bound (fields : Nat)
  | validated (index : Nat) (description : String)
  | ran (index : Nat) (description : String)
  | nothingToDo
  | entered (phase : RunPhase)
  | failed (message : String)
deriving DecidableEq

namespace Event

def passed : TaskPhase → Nat → String → Event
  | .validate => validated
  | .run => ran

def line (mode : Mode) (e : Event) : Line :=
  let mode := ("mode", LineValue.text mode.label)
  match e with
  | overridden o => ⟨.warn, "entry overridden by import",
      [mode, ("section", .text o.part.name), ("key", .text o.key)]⟩
  | resolved tier tasks =>
    ⟨.info, "plan resolved", [mode, ("tier", .text tier.text), ("tasks", .number tasks)]⟩
  | bound count => ⟨.debug, "variables bound", [mode, ("fields", .number count)]⟩
  | validated index description =>
    ⟨.info, "task validated", [mode, ("index", .number index), ("task", .text description)]⟩
  | ran index description =>
    ⟨.info, "task ran", [mode, ("index", .number index), ("task", .text description)]⟩
  | nothingToDo => ⟨.info, "nothing to do", [mode]⟩
  | entered phase => ⟨.debug, "phase changed", [mode, ("phase", .text phase.name)]⟩
  | failed message => ⟨.error, "orchestration failed", [mode, ("error", .text message)]⟩

end Event

end Rollout
