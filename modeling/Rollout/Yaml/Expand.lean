import Rollout.Yaml.Node

/-! A document without its aliases: each is replaced by the node it stands for. An anchor may hold aliases to
others and even to itself, so the replacements are counted and the depth is bounded. -/

namespace Rollout.Yaml

def depthLimit : Nat := 128

def aliasFactor : Nat := 100

/-- The node that an alias stands for, at the cost of one from the allowance; without allowance the alias
stays. -/
def follow (anchors : Anchors) : Node → StateM Nat Node
  | .alias slot => fun allowance =>
    if allowance = 0 then (.alias slot, 0) else ((anchors.lookup slot).getD .null, allowance - 1)
  | n => pure n

def expand (anchors : Anchors) : Nat → Node → StateM Nat Node
  | 0, n => pure n
  | depth + 1, n => do
    match ← follow anchors n with
    | .sequence tag items => return .sequence tag (← items.mapM (expand anchors depth))
    | .mapping tag entries =>
      return .mapping tag (← entries.mapM fun e => do
        let key ← expand anchors depth e.1
        let value ← expand anchors depth e.2
        return (key, value))
    | n => return n

/-- The root with its aliases followed as far as any reader goes. An alias that is left was one too many. -/
def Tree.expanded (t : Tree) : Node :=
  ((Yaml.expand t.anchors (depthLimit + 1) t.root).run (aliasFactor * t.root.size)).1

end Rollout.Yaml
