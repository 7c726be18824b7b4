import Rollout.Yaml.Token.Basic

/-! YAML as a tree of nodes. An alias names a slot of the anchor table, so that a node may lead back to
itself. -/

namespace Rollout.Yaml

inductive Node where
  | scalar (tag : Option Tag) (style : Style) (text : String)
  | sequence (tag : Option Tag) (items : List Node)
  | mapping (tag : Option Tag) (entries : List (Node × Node))
  | alias (slot : Nat)

namespace Node

def null : Node := scalar none .plain ""

instance : Inhabited Node := ⟨null⟩

mutual

/-- The size of a node: a scalar or an alias counts once, and so does each end of a collection. -/
def size : Node → Nat
  | .scalar .. => 1
  | .sequence _ items => sizeItems items + 2
  | .mapping _ entries => sizeEntries entries + 2
  | .alias _ => 1

def sizeItems : List Node → Nat
  | [] => 0
  | n :: ns => n.size + sizeItems ns

def sizeEntries : List (Node × Node) → Nat
  | [] => 0
  | (k, v) :: es => k.size + v.size + sizeEntries es

end

/-! Equality can be decided. -/

mutual

def same : Node → Node → Bool
  | .scalar t s a, .scalar t' s' a' => t == t' && s == s' && a == a'
  | .sequence t as, .sequence t' bs => t == t' && sameItems as bs
  | .mapping t as, .mapping t' bs => t == t' && sameEntries as bs
  | .alias i, .alias j => i == j
  | _, _ => false

def sameItems : List Node → List Node → Bool
  | [], [] => true
  | a :: as, b :: bs => same a b && sameItems as bs
  | _, _ => false

def sameEntries : List (Node × Node) → List (Node × Node) → Bool
  | [], [] => true
  | (k, a) :: as, (l, b) :: bs => same k l && same a b && sameEntries as bs
  | _, _ => false

end

mutual

theorem same_iff (a b : Node) : same a b = true ↔ a = b := by
  match a, b with
  | .scalar .., .scalar .. => simp [same, and_assoc]
  | .sequence _ as, .sequence _ bs => simp [same, sameItems_iff as bs]
  | .mapping _ as, .mapping _ bs => simp [same, sameEntries_iff as bs]
  | .alias _, .alias _ => simp [same]
  | .scalar .., .sequence .. | .scalar .., .mapping .. | .scalar .., .alias _
  | .sequence .., .scalar .. | .sequence .., .mapping .. | .sequence .., .alias _
  | .mapping .., .scalar .. | .mapping .., .sequence .. | .mapping .., .alias _
  | .alias _, .scalar .. | .alias _, .sequence .. | .alias _, .mapping .. => simp [same]

theorem sameItems_iff (as bs : List Node) : sameItems as bs = true ↔ as = bs := by
  match as, bs with
  | [], [] => simp [sameItems]
  | a :: as, b :: bs => simp [sameItems, same_iff a b, sameItems_iff as bs]
  | [], _ :: _ | _ :: _, [] => simp [sameItems]

theorem sameEntries_iff (as bs : List (Node × Node)) : sameEntries as bs = true ↔ as = bs := by
  match as, bs with
  | [], [] => simp [sameEntries]
  | (k, a) :: as, (l, b) :: bs =>
    simp [sameEntries, same_iff k l, same_iff a b, sameEntries_iff as bs]
  | [], _ :: _ | _ :: _, [] => simp [sameEntries]

end

instance : DecidableEq Node := fun a b => decidable_of_iff _ (same_iff a b)

end Node

abbrev Anchors := List (Nat × Node)

/-- A document: its root and its anchors. -/
structure Tree where
  root : Node
  anchors : Anchors := []

end Rollout.Yaml
