import Rollout.Environment
import Rollout.Keyed
import Rollout.Phase
import Rollout.Template
import Rollout.Trace

/-! Variables that templated fields are bound to. Evaluating a text fills in its template and then expands
the environment; a text that is no template, or refers to an unknown variable, stays as it is. -/

namespace Rollout

inductive ModeFlag where
  | text (s : String)
  | numeric (n : Int64)
deriving DecidableEq

namespace ModeFlag

def liveWords : List String := ["1", "t", "T", "TRUE", "true", "True"]

/-- Live needs a word for it or a number other than zero. -/
def mode : ModeFlag → Mode
  | text s => if s ∈ liveWords then .live else .test
  | numeric n => if n = 0 then .test else .live

end ModeFlag

structure Context where
  values : Keyed String := ∅
  flag : Option ModeFlag := none
deriving DecidableEq

namespace Context

def liveMode : String := "LIVE_MODE"

def get? (c : Context) (key : String) : Option String := c.values.get? key

def size (c : Context) : Nat := c.values.size

def isEmpty (c : Context) : Bool := c.values.isEmpty

def insert (c : Context) (key value : String) : Context :=
  ⟨c.values.insert key value, if key = liveMode then some (.text value) else c.flag⟩

/-- The values of a document's variables, with the environment expanded. -/
def ofVars (env : Environment) (vars : Keyed String) : Context :=
  vars.entries.foldl (fun c e => c.insert e.1 (env.expand e.2)) {}

def withFlag (c : Context) (flag : ModeFlag) : Context := { c with flag := some flag }

/-- Without a flag a deployment is a test. -/
def mode (c : Context) : Mode := (c.flag.map ModeFlag.mode).getD .test

def eval (c : Context) (env : Environment) (s : String) : String :=
  match Template.render c.get? s with
  | .ok rendered => env.expand rendered
  | .error _ => s

def evalLines (c : Context) (s : String) : List Line :=
  match Template.render c.get? s with
  | .ok _ => []
  | .error e =>
    [⟨.debug, "template left unexpanded", [("template", .text s), ("err", .text e.text)]⟩]

end Context

/-- What has fields that may hold templates. -/
class Templated (α : Type) where
  /-- The fields, in order. -/
  fields : α → List String
  /-- Applies a function to every such field and changes nothing else. -/
  mapFields : (String → String) → α → α

export Templated (fields mapFields)

namespace Context

variable {α : Type} [Templated α]

def bind (c : Context) (env : Environment) (a : α) : α := mapFields (c.eval env) a

def bindCount (c : Context) (env : Environment) (a : α) : Nat :=
  (fields a).countP fun f => c.eval env f ≠ f

def bindLines (c : Context) (a : α) : List Line := (fields a).flatMap c.evalLines

end Context

end Rollout
