import Rollout.Document.Merge
import Rollout.Proofs.Keyed

/-! Folding documents into one another, section by section. Folding is associative, so folding in a document
that others were folded into is folding in all of them one after another, and the value of a key is that of the
last document that declares it. -/

namespace Rollout

def Section.Entry : Section → Type
  | vars => String
  | artifacts => Decl.Artifact
  | images => Decl.Image
  | containers => Decl.Container
  | disks => Decl.Disk
  | instances => Decl.Instance
  | jobs => Decl.Job
  | services => Decl.Service

namespace Document

def part (d : Document) : (s : Section) → Keyed s.Entry
  | .vars => d.vars
  | .artifacts => d.artifacts
  | .images => d.images
  | .containers => d.containers
  | .disks => d.disks
  | .instances => d.instances
  | .jobs => d.jobs
  | .services => d.services

theorem ext_part {a b : Document} (hi : a.imports = b.imports) (hd : a.deploys = b.deploys)
    (hp : ∀ s, a.part s = b.part s) (ho : a.overrides = b.overrides) : a = b := by
  obtain ⟨ai, av, ad, asv, aa, aim, ac, adk, ains, aj, ao⟩ := a
  obtain ⟨bi, bv, bd, bsv, ba, bim, bc, bdk, bins, bj, bo⟩ := b
  obtain rfl : ai = bi := hi
  obtain rfl : ad = bd := hd
  obtain rfl : ao = bo := ho
  obtain rfl : av = bv := hp .vars
  obtain rfl : aa = ba := hp .artifacts
  obtain rfl : aim = bim := hp .images
  obtain rfl : ac = bc := hp .containers
  obtain rfl : adk = bdk := hp .disks
  obtain rfl : ains = bins := hp .instances
  obtain rfl : aj = bj := hp .jobs
  obtain rfl : asv = bsv := hp .services
  rfl

@[simp] theorem part_merge (a b : Document) (s : Section) :
    (a.merge b).part s = (a.part s).override (b.part s) := by
  cases s <;> rfl

theorem merge_assoc (a b c : Document) : (a.merge b).merge c = a.merge (b.merge c) := by
  refine ext_part rfl (List.append_assoc ..) (fun s => ?_) rfl
  rw [part_merge, part_merge, part_merge, part_merge, Keyed.override_assoc]

/-- The documents of a list folded into the first, one after another. -/
def mergeAll : List Document → Document
  | [] => {}
  | d :: ds => ds.foldl merge d

@[simp] theorem mergeAll_cons_cons (a b : Document) (ds : List Document) :
    mergeAll (a :: b :: ds) = mergeAll (a.merge b :: ds) := rfl

theorem mergeAll_append (a : Document) (ds es : List Document) :
    mergeAll (a :: (ds ++ es)) = mergeAll (mergeAll (a :: ds) :: es) :=
  List.foldl_append ..

/-- Folding in a document that others were folded into is folding in all of them. -/
theorem merge_mergeAll (a b : Document) (ds : List Document) :
    a.merge (mergeAll (b :: ds)) = mergeAll (a :: b :: ds) := by
  induction ds generalizing b with
  | nil => rfl
  | cons d ds ih => rw [mergeAll_cons_cons, ih, mergeAll_cons_cons, mergeAll_cons_cons, mergeAll_cons_cons,
      merge_assoc]

theorem deploys_mergeAll (a : Document) (ds : List Document) :
    (mergeAll (a :: ds)).deploys = (a :: ds).flatMap deploys := by
  induction ds generalizing a with
  | nil => simp [mergeAll]
  | cons d ds ih =>
    rw [mergeAll_cons_cons, ih]
    simp [merge]

theorem imports_mergeAll (a : Document) (ds : List Document) :
    (mergeAll (a :: ds)).imports = a.imports := by
  induction ds generalizing a with
  | nil => rfl
  | cons d ds ih => rw [mergeAll_cons_cons, ih]; rfl

/-- Among the documents of a list the last one with an entry at a key has this one. -/
def LastEntry (s : Section) (ds : List Document) (key : String) (v : s.Entry) : Prop :=
  ∃ before d after, ds = before ++ d :: after ∧ (d.part s).get? key = some v ∧
    ∀ d' ∈ after, (d'.part s).get? key = none

theorem get?_mergeAll (s : Section) (key : String) (a : Document) (ds : List Document) :
    ((mergeAll (a :: ds)).part s).get? key =
      (a :: ds).reverse.findSome? fun d => (d.part s).get? key := by
  induction ds generalizing a with
  | nil => simp [mergeAll]
  | cons d ds ih =>
    rw [mergeAll_cons_cons, ih]
    cases h : (d.part s).get? key <;> simp [List.findSome?_append, List.findSome?_cons, h]

theorem get?_mergeAll_eq_some {s : Section} {key : String} {a : Document} {ds : List Document} {v : s.Entry} :
    ((mergeAll (a :: ds)).part s).get? key = some v ↔ LastEntry s (a :: ds) key v := by
  rw [get?_mergeAll, List.findSome?_eq_some_iff]
  constructor
  · rintro ⟨after, d, before, hl, hd, hn⟩
    refine ⟨before.reverse, d, after.reverse, ?_, hd, fun d' h => hn d' (List.mem_reverse.1 h)⟩
    have := congrArg List.reverse hl
    simpa using this
  · rintro ⟨before, d, after, hl, hd, hn⟩
    refine ⟨after.reverse, d, before.reverse, ?_, hd, fun d' h => hn d' (List.mem_reverse.1 h)⟩
    rw [hl]
    simp

/-- A document without the record of what imports replaced. -/
def bare (d : Document) : Document := { d with overrides := [] }

@[simp] theorem part_bare (d : Document) (s : Section) : d.bare.part s = d.part s := by
  cases s <;> rfl

theorem bare_absorb (a b : Document) : (a.absorb b).bare = (a.merge b.bare).bare := rfl

theorem bare_merge (a b : Document) : (a.merge b).bare = a.bare.merge b := rfl

theorem merge_bare (a b : Document) : a.merge b.bare = a.merge b := rfl

end Document

end Rollout
