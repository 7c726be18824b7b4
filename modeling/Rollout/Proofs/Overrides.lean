import Rollout.Proofs.Import
import Rollout.Proofs.Yaml.Decode
import Mathlib.Data.List.Count

/-! Every override is recorded once. Where a key is declared by several documents of an import tree, each of them
but one replaces an entry or is replaced, at whatever depth the two meet; so the record of a loaded document
holds the key one time less than the tree declares it. -/

namespace Rollout

namespace Keyed

variable {α : Type}

theorem contains_override (a b : Keyed α) (key : String) :
    (a.override b).contains key = (a.contains key || b.contains key) := by
  unfold contains
  rw [get?_override, Option.isSome_or, Bool.or_comm]

theorem count_sharedKeys (a b : Keyed α) (key : String) :
    (a.sharedKeys b).count key = if a.contains key && b.contains key then 1 else 0 := by
  have hnodup : (a.sharedKeys b).Nodup := b.nodup_keys.filter _
  have hmem : key ∈ a.sharedKeys b ↔ (a.contains key && b.contains key) = true := by
    simp only [sharedKeys, List.mem_filter, mem_keys, contains, Option.isSome_iff_exists, Bool.and_eq_true]
    exact and_comm
  rw [hnodup.count]
  exact if_congr hmem rfl rfl

end Keyed

/-- The sections in the order in which overrides are recorded. -/
def Section.all : List Section := [vars, artifacts, images, containers, disks, instances, jobs, services]

namespace Document

def declares (s : Section) (key : String) (d : Document) : Bool := (d.part s).contains key

theorem declares_merge (s : Section) (key : String) (a b : Document) :
    (a.merge b).declares s key = (a.declares s key || b.declares s key) := by
  rw [declares, part_merge, Keyed.contains_override]
  rfl

theorem declares_absorb (s : Section) (key : String) (a b : Document) :
    (a.absorb b).declares s key = (a.declares s key || b.declares s key) := by
  have hpart : (a.absorb b).part s = (a.merge b).part s := by cases s <;> rfl
  rw [← declares_merge, declares, declares, hpart]

theorem count_map_mk (s s' : Section) (key : String) (keys : List String) :
    (keys.map (Override.mk s')).count ⟨s, key⟩ = if s = s' then keys.count key else 0 := by
  split
  · rename_i h
    subst h
    exact List.count_map_of_injective keys _ (fun _ _ h => (Override.mk.inj h).2) key
  · rename_i h
    refine List.count_eq_zero.2 fun hm => ?_
    obtain ⟨_, -, he⟩ := List.mem_map.1 hm
    exact h (Override.mk.inj he).1.symm

theorem replaced_eq_flatMap (a b : Document) :
    a.replaced b = Section.all.flatMap fun s => ((a.part s).sharedKeys (b.part s)).map (Override.mk s) := by
  simp only [Section.all, List.flatMap_cons, List.flatMap_nil, List.append_nil, replaced, List.append_assoc]
  rfl

theorem count_replaced (s : Section) (key : String) (a b : Document) :
    (a.replaced b).count ⟨s, key⟩ = if a.declares s key && b.declares s key then 1 else 0 := by
  have hpart : (a.replaced b).count ⟨s, key⟩ = ((a.part s).sharedKeys (b.part s)).count key := by
    rw [replaced_eq_flatMap]
    simp only [Section.all, List.flatMap_cons, List.flatMap_nil, List.count_append, List.count_nil, count_map_mk]
    cases s <;> simp
  rw [hpart, Keyed.count_sharedKeys]
  rfl

/-- How often the documents behind this one declare a key: once for every time it was replaced, and once for
the entry that is left. -/
def tally (s : Section) (key : String) (d : Document) : Nat :=
  d.overrides.count ⟨s, key⟩ + if d.declares s key then 1 else 0

theorem tally_absorb (s : Section) (key : String) (a b : Document) :
    (a.absorb b).tally s key = a.tally s key + b.tally s key := by
  have hcount : (a.absorb b).overrides.count ⟨s, key⟩ =
      a.overrides.count ⟨s, key⟩ + b.overrides.count ⟨s, key⟩ + (a.replaced b).count ⟨s, key⟩ := by
    simp only [absorb, List.count_append]
  unfold tally
  rw [hcount, count_replaced, declares_absorb]
  cases a.declares s key <;> cases b.declares s key <;> simp <;> omega

theorem overrides_decode {n : Yaml.Node} {d : Document} (h : decode n = .ok d) : d.overrides = [] := by
  refine Yaml.Decode.record_keeps (P := fun d => d.overrides = []) ?_ rfl h
  simp only [List.forall_mem_cons, List.not_mem_nil, false_implies, implies_true, and_true]
  refine ⟨?_, ?_, ?_, ?_, ?_, ?_, ?_, ?_, ?_, ?_⟩ <;> exact Yaml.Decode.field_keeps fun _ _ hd => hd

/-- The text of a document cannot say what imports replaced. -/
theorem overrides_ofYaml {text : String} {d : Document} (h : ofYaml text = .ok d) : d.overrides = [] := by
  unfold ofYaml at h
  split at h
  · cases h
    rfl
  · split at h
    · cases h
    · exact overrides_decode h

def Accounts (d : Document) (ds : List Document) : Prop :=
  ∀ s key, d.tally s key = ds.countP (declares s key) ∧ d.declares s key = ds.any (declares s key)

theorem accounts_single {text : String} {d : Document} (h : ofYaml text = .ok d) : d.Accounts [d] := by
  intro s key
  simp [tally, overrides_ofYaml h]

theorem Accounts.absorb {a x b y : Document} {xs ys : List Document} (ha : a.Accounts (x :: xs))
    (hb : b.Accounts (y :: ys)) : (a.absorb b).Accounts (x :: (xs ++ y :: ys)) := by
  intro s key
  rw [tally_absorb, declares_absorb, (ha s key).1, (hb s key).1, (ha s key).2, (hb s key).2,
    ← List.cons_append, List.countP_append, List.any_append]
  exact ⟨rfl, rfl⟩

theorem Accounts.count_overrides {d : Document} {ds : List Document} (h : d.Accounts ds) (s : Section)
    (key : String) : d.overrides.count ⟨s, key⟩ = ds.countP (declares s key) - 1 := by
  obtain ⟨htally, hdeclares⟩ := h s key
  unfold tally at htally
  cases hd : d.declares s key with
  | true =>
    rw [hd] at htally
    simp only [if_true] at htally
    omega
  | false =>
    -- no document declares the key, so there is nothing to record
    rw [hd] at htally
    simp only [Bool.false_eq_true, if_false, Nat.add_zero] at htally
    have hzero : ds.countP (declares s key) = 0 := by
      rw [List.countP_eq_zero]
      simpa [hd] using hdeclares
    omega

end Document

namespace World

variable {w : World}

/-- In the record of a loaded document a key of a section stands one time less than the import tree declares it
there. -/
theorem load_overrides_count (w : World) :
    (∀ path doc, w.load path = .ok doc →
        ∃ ds, (∀ es, w.UnfoldsFile path es ↔ es = ds) ∧ ∀ s key,
          doc.overrides.count ⟨s, key⟩ = ds.countP (Document.declares s key) - 1) ∧
      ∀ text base doc, w.loadText text base = .ok doc →
        ∃ ds, (∀ es, w.UnfoldsText text base es ↔ es = ds) ∧ ∀ s key,
          doc.overrides.count ⟨s, key⟩ = ds.countP (Document.declares s key) - 1 := by
  have hbelow : ∀ path d, (w.loadBelow w.levels [] path).value = .ok d →
      w.Gathers Document.Accounts path d :=
    fun _ _ => loadBelow_gathers Document.accounts_single Document.Accounts.absorb w.ample_start
  constructor
  · intro path doc h
    obtain ⟨here, root, below, hh, hu, hacc⟩ := hbelow path doc h
    exact ⟨root :: below, UnfoldsFile.iff_eq ⟨here, root, below, hh, hu, rfl⟩, hacc.count_overrides⟩
  · intro text base doc h
    unfold loadText loadTextTraced at h
    split at h
    · cases h
    rename_i root hroot
    obtain ⟨below, hu, hacc⟩ := foldImports_gathers Document.Accounts.absorb hbelow
      (Document.accounts_single hroot) h
    exact ⟨root :: below, UnfoldsText.iff_eq ⟨root, below, hroot, hu, rfl⟩, hacc.count_overrides⟩

/-- Four nodes of the tree declare `x`: `/a`, `/d/b`, and `/c` below each of them. -/
theorem load_overrides_count_diamond :
    (∃ doc, diamond.load "/a" = .ok doc ∧ doc.overrides = [⟨.vars, "x"⟩, ⟨.vars, "x"⟩, ⟨.vars, "x"⟩] ∧
      ∃ ds, (∀ es, diamond.UnfoldsFile "/a" es ↔ es = ds) ∧ ∀ s key,
        doc.overrides.count ⟨s, key⟩ = ds.countP (Document.declares s key) - 1) ∧
    ∃ doc, diamond.loadText "imports: [b]\nvars: \x7bz: 4\x7d" "/d" = .ok doc ∧
      doc.overrides = [⟨.vars, "x"⟩, ⟨.vars, "z"⟩] ∧
      ∃ ds, (∀ es, diamond.UnfoldsText "imports: [b]\nvars: \x7bz: 4\x7d" "/d" es ↔ es = ds) ∧ ∀ s key,
        doc.overrides.count ⟨s, key⟩ = ds.countP (Document.declares s key) - 1 := by
  constructor
  · have h : (diamond.load "/a").toOption.map Document.overrides =
        some [⟨.vars, "x"⟩, ⟨.vars, "x"⟩, ⟨.vars, "x"⟩] := by decide +kernel
    obtain ⟨doc, hdoc, ho⟩ := exists_of_map_toOption h
    exact ⟨doc, hdoc, ho, (load_overrides_count diamond).1 "/a" doc hdoc⟩
  · have h : (diamond.loadText "imports: [b]\nvars: \x7bz: 4\x7d" "/d").toOption.map Document.overrides =
        some [⟨.vars, "x"⟩, ⟨.vars, "z"⟩] := by decide +kernel
    obtain ⟨doc, hdoc, ho⟩ := exists_of_map_toOption h
    exact ⟨doc, hdoc, ho, (load_overrides_count diamond).2 _ "/d" doc hdoc⟩

end World

end Rollout
