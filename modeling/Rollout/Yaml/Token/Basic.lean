import Rollout.Yaml.Char
import Rollout.Yaml.Tag

/-! Tokens of YAML text, and the white space inside scalars. -/

namespace Rollout.Yaml

inductive Style where
  | plain
  | singleQuoted
  | doubleQuoted
  | literal
  | folded
deriving DecidableEq

inductive Token where
  | version (major minor : Nat)
  | tagHandle (handle : String) (lead : Tag)
  | documentStart
  | documentEnd
  | blockSequenceStart
  | blockMappingStart
  | blockEnd
  | flowSequenceStart
  | flowSequenceEnd
  | flowMappingStart
  | flowMappingEnd
  | blockEntry
  | flowEntry
  | key
  | value
  | alias (name : String)
  | anchor (name : String)
  | tag (handle : String) (suffix : Tag)
  | scalar (style : Style) (text : String)
deriving DecidableEq

structure Scanned (α : Type) where
  value : α
  mark : Mark
  rest : List Char

/-- White space since the last character of a scalar, latest first. Spaces count only until the first
break; after it, breaks fold. -/
structure Gap where
  spaces : List Char := []
  folding : Bool := false
  lead : List Char := []
  breaks : List Char := []

namespace Gap

def isEmpty (g : Gap) : Bool := !g.folding && g.spaces.isEmpty

def space (g : Gap) (c : Char) : Gap :=
  if g.folding then g else { g with spaces := c :: g.spaces }

def newline (g : Gap) (c : Char) : Gap :=
  if g.folding then { g with breaks := breakText c :: g.breaks }
  else { folding := true, lead := [breakText c] }

/-- Appends what the gap stands for to a text held latest first: its spaces, or its breaks folded. One
line feed folds to a space, and the first of several is dropped. -/
def join (g : Gap) (out : List Char) : List Char :=
  if g.folding then
    if g.lead = ['\n'] then if g.breaks = [] then ' ' :: out else g.breaks ++ out
    else g.breaks ++ g.lead ++ out
  else g.spaces ++ out

end Gap

end Rollout.Yaml
