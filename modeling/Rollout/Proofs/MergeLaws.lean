import Rollout.Proofs.Overrides

/-! The laws of folding one document into another. Folding in keeps the import list and the record of the document
that takes in, and replaces each key that both have, once. It does not matter whether three documents are folded
together from the left or from the right: the sections are the same, and so is what gets replaced, though at another
time. Documents that share no key can be folded in in any order. -/

namespace Rollout

namespace Keyed

variable {α : Type}

theorem contains_iff_mem_keys {m : Keyed α} {key : String} : m.contains key = true ↔ key ∈ m.keys := by
  rw [contains, Option.isSome_iff_exists, mem_keys]

theorem override_comm {b c : Keyed α} (h : ∀ key ∈ b.keys, key ∉ c.keys) (a : Keyed α) :
    (a.override b).override c = (a.override c).override b := by
  refine ext_get? fun key => ?_
  simp only [get?_override]
  cases hb : b.get? key with
  | none => simp
  | some v =>
    have hc : c.get? key = none := get?_eq_none.2 (h key (mem_keys.2 ⟨v, hb⟩))
    simp [hc]

theorem sharedKeys_ascending (a b : Keyed α) : (a.sharedKeys b).Pairwise (· < ·) :=
  b.ascending.sublist List.filter_sublist

def takeIn (acc : Keyed α × List String) (e : String × α) : Keyed α × List String :=
  (acc.1.insert e.1 e.2, if acc.1.contains e.1 then acc.2 ++ [e.1] else acc.2)

theorem contains_insert_of_ne {m : Keyed α} {k x : String} (h : x ≠ k) (a : α) :
    (m.insert k a).contains x = m.contains x := by
  rw [contains, get?_insert, if_neg h]
  rfl

theorem foldl_takeIn_from {es : List (String × α)} (h : (es.map Prod.fst).Nodup) (m : Keyed α) (noted : List String) :
    es.foldl takeIn (m, noted) =
      (es.foldl (fun m e => m.insert e.1 e.2) m, noted ++ (es.map Prod.fst).filter m.contains) := by
  induction es generalizing m noted with
  | nil => simp
  | cons e es ih =>
    obtain ⟨k, a⟩ := e
    simp only [List.map_cons, List.nodup_cons] at h
    -- the key does not come again, so putting it in replaces nothing later
    have hrest : (es.map Prod.fst).filter (m.insert k a).contains = (es.map Prod.fst).filter m.contains := by
      refine List.filter_congr fun x hx => contains_insert_of_ne ?_ a
      rintro rfl
      exact h.1 hx
    rw [List.foldl_cons, takeIn, ih h.2, hrest, List.foldl_cons, List.map_cons, List.filter_cons]
    split <;> simp

theorem foldl_takeIn (a b : Keyed α) : b.entries.foldl takeIn (a, []) = (a.override b, a.sharedKeys b) :=
  foldl_takeIn_from b.nodup_keys a []

end Keyed

def Section.rank (s : Section) : Nat := Section.all.idxOf s

theorem Section.rank_ascending : Section.all.Pairwise fun s s' => s.rank < s'.rank := by decide

def Override.Before (o o' : Override) : Prop :=
  o.part.rank < o'.part.rank ∨ o.part = o'.part ∧ o.key < o'.key

namespace Document

def Apart (b c : Document) : Prop := ∀ s, ∀ key ∈ (b.part s).keys, key ∉ (c.part s).keys

theorem declares_iff {s : Section} {key : String} {d : Document} :
    d.declares s key = true ↔ key ∈ (d.part s).keys :=
  Keyed.contains_iff_mem_keys

theorem replaced_ascending (a b : Document) : (a.replaced b).Pairwise Override.Before := by
  rw [replaced_eq_flatMap]
  refine List.pairwise_flatMap.2 ⟨fun s _ => ?_, ?_⟩
  · refine List.pairwise_map.2 ((Keyed.sharedKeys_ascending ..).imp fun hlt => ?_)
    exact .inr ⟨rfl, hlt⟩
  · refine Section.rank_ascending.imp fun hlt o ho o' ho' => ?_
    obtain ⟨_, -, rfl⟩ := List.mem_map.1 ho
    obtain ⟨_, -, rfl⟩ := List.mem_map.1 ho'
    exact .inl hlt

/-- Where two of three documents have a key, one entry is replaced, and where all three have it, two are: whichever
two are folded together first. -/
theorem replaced_merge_perm (a b c : Document) :
    (a.replaced b ++ (a.merge b).replaced c).Perm (b.replaced c ++ a.replaced (b.merge c)) := by
  rw [List.perm_iff_count]
  rintro ⟨s, key⟩
  simp only [List.count_append, count_replaced, declares_merge]
  cases a.declares s key <;> cases b.declares s key <;> cases c.declares s key <;> rfl

/-- Folding goes through the sections in order and puts the entries of each in one by one; what is replaced on the
way is noted. -/
theorem merge_stepwise (a b : Document) :
    (∀ s, (a.merge b).part s = ((b.part s).entries.foldl Keyed.takeIn (a.part s, [])).1) ∧
      a.replaced b = Section.all.flatMap fun s =>
        ((b.part s).entries.foldl Keyed.takeIn (a.part s, [])).2.map (Override.mk s) := by
  simp only [Keyed.foldl_takeIn]
  exact ⟨part_merge a b, replaced_eq_flatMap a b⟩

/-- The laws of folding: what the receiving document keeps, how the entries are put in, what is replaced and in which
order, how three documents may be grouped, and when two may change places. -/
theorem merge_laws (a b c : Document) :
    ((a.merge b).imports = a.imports ∧ (a.merge b).overrides = a.overrides) ∧
      ((a.merge b).deploys = a.deploys ++ b.deploys ∧
        (∀ s, (a.merge b).part s = ((b.part s).entries.foldl Keyed.takeIn (a.part s, [])).1) ∧
        a.replaced b = Section.all.flatMap fun s =>
          ((b.part s).entries.foldl Keyed.takeIn (a.part s, [])).2.map (Override.mk s)) ∧
      ((∀ s key, (a.replaced b).count ⟨s, key⟩ =
          if key ∈ (a.part s).keys ∧ key ∈ (b.part s).keys then 1 else 0) ∧
        (a.replaced b).Pairwise Override.Before) ∧
      (((a.merge b).merge c).deploys = (a.merge (b.merge c)).deploys ∧
        ∀ s, ((a.merge b).merge c).part s = (a.merge (b.merge c)).part s) ∧
      (a.replaced b ++ (a.merge b).replaced c).Perm (b.replaced c ++ a.replaced (b.merge c)) ∧
      (b.Apart c → ∀ s, ((a.merge b).merge c).part s = ((a.merge c).merge b).part s) := by
  refine ⟨⟨rfl, rfl⟩, ⟨rfl, merge_stepwise a b⟩, ⟨fun s key => ?_, replaced_ascending a b⟩, ?_,
    replaced_merge_perm a b c, fun hapart s => ?_⟩
  · rw [count_replaced]
    simp only [Bool.and_eq_true, declares_iff]
  · rw [merge_assoc]
    exact ⟨rfl, fun _ => rfl⟩
  · rw [part_merge, part_merge, part_merge, part_merge]
    exact Keyed.override_comm (hapart s) (a.part s)

def region : Document where
  imports := ["zone.yml"]
  vars := .ofList [("x", "1"), ("y", "1")]
  disks := .ofList [("data", {})]
  overrides := [⟨.jobs, "old"⟩]

/-- Replaces a variable of `region`. -/
def zone : Document where
  vars := .ofList [("x", "2"), ("z", "2")]
  deploys := ["web"]

/-- Replaces a variable and a disk of `region`, and has nothing in common with `zone`. -/
def rack : Document where
  vars := .ofList [("y", "3")]
  disks := .ofList [("data", { sizeGb := some 10 }), ("logs", {})]

theorem merge_laws_region :
    zone.Apart rack ∧ region.replaced zone = [⟨.vars, "x"⟩] ∧
      (region.merge zone).replaced rack = [⟨.vars, "y"⟩, ⟨.disks, "data"⟩] ∧
      ((region.merge zone).merge rack).vars.entries = [("x", "2"), ("y", "3"), ("z", "2")] ∧
      ∀ s, ((region.merge zone).merge rack).part s = ((region.merge rack).merge zone).part s := by
  have hapart : zone.Apart rack := by
    intro s
    cases s <;> decide +kernel
  exact ⟨hapart, by decide +kernel, by decide +kernel, by decide +kernel,
    (merge_laws region zone rack).2.2.2.2.2 hapart⟩

end Document

end Rollout
