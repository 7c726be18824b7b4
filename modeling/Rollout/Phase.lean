/-! Phases of a deployment and the mode it runs in. -/

namespace Rollout

inductive TaskPhase where
  | validate
  | run
deriving DecidableEq

def TaskPhase.name : TaskPhase → String
  | validate => "validate"
  | run => "run"

inductive RunPhase where
  | idle
  | resolved
  | validated
  | applied
  | failed
deriving DecidableEq

def RunPhase.name : RunPhase → String
  | idle => "idle"
  | resolved => "resolved"
  | validated => "validated"
  | applied => "applied"
  | failed => "failed"

/-- A step that is only allowed in one phase. -/
inductive Operation where
  | resolve
  | validate
  | run
deriving DecidableEq

def Operation.name : Operation → String
  | resolve => "resolve"
  | validate => "validate"
  | run => "run"

inductive Mode where
  | test
  | live
deriving DecidableEq

def Mode.label : Mode → String
  | test => "TEST"
  | live => "LIVE"

end Rollout
