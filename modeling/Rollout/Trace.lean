/-! Trace lines: what a run reports beside its result. A computation that traces returns its value with
the lines in order. -/

namespace Rollout

inductive Level where
  | error
  | warn
  | info
  | debug
deriving DecidableEq

def Level.name : Level → String
  | error => "ERROR"
  | warn => "WARN"
  | info => "INFO"
  | debug => "DEBUG"

inductive LineValue where
  | text (s : String)
  | number (n : Nat)
deriving DecidableEq

structure Line where
  level : Level
  message : String
  values : List (String × LineValue) := []
deriving DecidableEq

/-- A value and the lines traced on the way to it. -/
structure Traced (α : Type) where
  value : α
  lines : List Line := []

namespace Traced

variable {α β : Type}

def after (ls : List Line) (t : Traced α) : Traced α := ⟨t.value, ls ++ t.lines⟩

def map (f : α → β) (t : Traced α) : Traced β := ⟨f t.value, t.lines⟩

end Traced

end Rollout
