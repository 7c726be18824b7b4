import Rollout.Proofs.Fault
import Rollout.Proofs.Import
import Mathlib.Data.List.Chain

/-! Which documents load. Files import one another, and the imports that start at a file make a graph; a document
loads just when the graph is well founded: every import in it leads to a document, and no file lies below itself.
The files being loaded are a walk of that graph, so a file comes up twice on it only where the graph has a
cycle, and a file that several others share is no cycle. -/

namespace Rollout.World

open Relation

variable {w : World}

/-- Where an entry of the import list of the file at `l` leads, however it is spelled. -/
def target (w : World) (l : Location) (raw : String) : Except FileFault Location :=
  w.files.locate w.cwd (Path.join l.parent.text (w.env.expand raw))

def Imports (w : World) (l l' : Location) : Prop :=
  ∃ doc raw, w.Parses l doc ∧ raw ∈ doc.imports ∧ w.target l raw = .ok l'

def Intact (w : World) (l : Location) : Prop :=
  ∃ doc, w.Parses l doc ∧ ∀ raw ∈ doc.imports, ∃ l', w.target l raw = .ok l'

/-- The imports that start at a file are well founded. -/
structure Sound (w : World) (root : Location) : Prop where
  intact : ∀ l, ReflTransGen w.Imports root l → w.Intact l
  acyclic : ∀ l, ReflTransGen w.Imports root l → ¬ TransGen w.Imports l l

theorem Sound.imported {l l' : Location} (h : w.Sound l) (hi : w.Imports l l') : w.Sound l' where
  intact := fun x hx => h.intact x (hx.head hi)
  acyclic := fun x hx => h.acyclic x (hx.head hi)

theorem sound_of_targets {l : Location} {doc : Document} (hp : w.Parses l doc)
    (h : ∀ raw ∈ doc.imports, ∃ l', w.target l raw = .ok l' ∧ w.Sound l') : w.Sound l := by
  have hnext : ∀ x, w.Imports l x → w.Sound x := by
    rintro x ⟨doc', raw, hp', hraw, hx⟩
    obtain rfl := hp.unique hp'
    obtain ⟨l', hl', hs⟩ := h raw hraw
    rw [hl'] at hx
    cases hx
    exact hs
  refine ⟨fun x hx => ?_, fun x hx hcycle => ?_⟩
  · rcases hx.cases_head with rfl | ⟨y, hy, hyx⟩
    · exact ⟨doc, hp, fun raw hraw => (h raw hraw).imp fun _ hl' => hl'.1⟩
    · exact (hnext y hy).intact x hyx
  · rcases hx.cases_head with rfl | ⟨y, hy, hyx⟩
    · -- a cycle through `l` itself passes through one of its imports
      obtain ⟨y, hy, hyl⟩ := TransGen.head'_iff.1 hcycle
      exact (hnext y hy).acyclic _ hyl hcycle
    · exact (hnext y hy).acyclic x hyx hcycle

/-! ### What loads is sound -/

/-- An import tree is finite, so nothing in it lies below itself. -/
theorem Unfolds.sound {base : String} {raws : List String} {ds : List Document} (h : w.Unfolds base raws ds) :
    ∀ raw ∈ raws, ∃ l, w.files.locate w.cwd (Path.join base (w.env.expand raw)) = .ok l ∧ w.Sound l := by
  induction h with
  | nil => simp
  | @cons base raw raws here doc below rest hh _ _ ihb iht =>
    intro r hr
    rcases List.mem_cons.1 hr with rfl | hr
    · exact ⟨here, hh.located, sound_of_targets hh.parsed ihb⟩
    · exact iht r hr

theorem LoadsTo.sound {path : String} {doc : Document} (h : w.LoadsTo path doc) :
    ∃ root, w.files.locate w.cwd path = .ok root ∧ w.Sound root := by
  obtain ⟨here, root, below, hh, hu, -⟩ := h
  exact ⟨here, hh.located, sound_of_targets hh.parsed hu.sound⟩

/-! ### What is sound loads -/

theorem transGen_of_isChain {α : Type} {R : α → α → Prop} {xs : List α} {a b : α}
    (h : (xs ++ [b]).IsChain R) (ha : a ∈ xs) : TransGen R a b := by
  have hp : (xs ++ [b]).Pairwise (TransGen R) :=
    List.isChain_iff_pairwise.1 (h.imp fun _ _ => TransGen.single)
  exact (List.pairwise_append.1 hp).2.2 a ha b (List.mem_singleton.2 rfl)

theorem reflTransGen_of_isChain {α : Type} {R : α → α → Prop} {xs : List α} {a b : α}
    (h : (a :: xs).IsChain R) (hb : b ∈ a :: xs) : ReflTransGen R a b := by
  have hp : (a :: xs).Pairwise (TransGen R) :=
    List.isChain_iff_pairwise.1 (h.imp fun _ _ => TransGen.single)
  rcases List.mem_cons.1 hb with rfl | hb
  · exact .refl
  · exact ((List.pairwise_cons.1 hp).1 b hb).to_reflTransGen

theorem isChain_snoc {chain : List Location} {here l : Location} (h : (chain ++ [here]).IsChain w.Imports)
    (hi : w.Imports here l) : (chain ++ [here] ++ [l]).IsChain w.Imports := by
  rw [List.append_assoc]
  exact List.isChain_append_cons_cons.2 ⟨h, hi, .singleton l⟩

theorem exists_foldImports {load : String → Traced (Except Error Document)} {base : String}
    {raws : List String} (h : ∀ raw ∈ raws, ∃ d, (load (Path.join base (w.env.expand raw))).value = .ok d)
    (origin : String) (doc : Document) :
    ∃ result, (w.foldImports load origin base doc raws).value = .ok result := by
  induction raws generalizing doc with
  | nil => exact ⟨doc, rfl⟩
  | cons raw raws ih =>
    obtain ⟨d, hd⟩ := h raw List.mem_cons_self
    rw [foldImports_cons_ok hd]
    exact ih (fun r hr => h r (List.mem_cons_of_mem _ hr)) (doc.absorb d)

/-- The files of the chain import one another, so a sound file below them is none of them. -/
theorem exists_loadBelow {levels : Nat} {chain : List Location} (hc : w.Ample levels chain) {path : String}
    {here : Location} (hl : w.files.locate w.cwd path = .ok here)
    (hw : (chain ++ [here]).IsChain w.Imports) (hs : w.Sound here) :
    ∃ doc, (w.loadBelow levels chain path).value = .ok doc := by
  induction levels generalizing chain path here with
  | zero =>
    obtain ⟨doc, hp, -⟩ := hs.intact here .refl
    have hn : here ∉ chain := fun hm => hs.acyclic here .refl (transGen_of_isChain hw hm)
    obtain ⟨m, hm, -⟩ := hc.step (Holds.mem_entries ⟨hl, hp⟩) hn
    cases hm
  | succ n ih =>
    obtain ⟨doc, hp, htargets⟩ := hs.intact here .refl
    have hn : here ∉ chain := fun hm => hs.acyclic here .refl (transGen_of_isChain hw hm)
    obtain ⟨m, hm, hc'⟩ := hc.step (Holds.mem_entries ⟨hl, hp⟩) hn
    cases hm
    rw [loadBelow_of_fetch (fetch_eq_ok.2 ⟨⟨hl, hp⟩, hn⟩)]
    refine exists_foldImports (fun raw hraw => ?_) path doc
    obtain ⟨l, hlraw⟩ := htargets raw hraw
    have hi : w.Imports here l := ⟨doc, raw, hp, hraw, hlraw⟩
    exact ih hc' hlraw (isChain_snoc hw hi) (hs.imported hi)

/-! ### Cycles that are reported -/

/-- A walk along imports whose files are all different but for the last, which was passed before. -/
structure Recurs (w : World) (walk : List Location) : Prop where
  chained : walk.IsChain w.Imports
  nodup : walk.dropLast.Nodup
  again : ∃ l ∈ walk.dropLast, walk.getLast? = some l

theorem importedBy_eq_cycle {e : Error} {origin path : String} {walk : List Location}
    (h : e.importedBy origin = .parse path (.cycle walk)) : e = .parse path (.cycle walk) := by
  cases e with
  | io p fault => cases h
  | _ => exact h

theorem foldImports_eq_error {load : String → Traced (Except Error Document)} {origin base : String}
    {raws : List String} {doc : Document} {e : Error}
    (h : (w.foldImports load origin base doc raws).value = .error e) :
    ∃ before raw after e', raws = before ++ raw :: after ∧
      (∀ r ∈ before, ∃ d, (load (Path.join base (w.env.expand r))).value = .ok d) ∧
      (load (Path.join base (w.env.expand raw))).value = .error e' ∧ e = e'.importedBy origin := by
  induction raws generalizing doc with
  | nil => cases h
  | cons raw raws ih =>
    cases hd : (load (Path.join base (w.env.expand raw))).value with
    | error e' =>
      rw [foldImports_cons_error hd] at h
      cases h
      exact ⟨[], raw, raws, e', rfl, by simp, hd, rfl⟩
    | ok d =>
      rw [foldImports_cons_ok hd] at h
      obtain ⟨before, r, after, e', rfl, hbefore, he', rfl⟩ := ih h
      refine ⟨raw :: before, r, after, e', rfl, fun x hx => ?_, he', rfl⟩
      rcases List.mem_cons.1 hx with rfl | hx
      · exact ⟨d, hd⟩
      · exact hbefore x hx

theorem fetch_of_locate_error {path : String} {fault : FileFault} (h : w.files.locate w.cwd path = .error fault)
    (chain : List Location) : w.fetch chain path = .error (.io path fault) := by
  simp [fetch, h]

inductive Unavailable (w : World) (path : String) : FileFault → Prop
  | unlocated {fault : FileFault} (h : w.files.locate w.cwd path = .error fault) : Unavailable w path fault
  | unread {here : Location} {fault : FileFault} (hl : w.files.locate w.cwd path = .ok here)
      (h : w.files.read here = .error fault) : Unavailable w path fault

theorem fetch_eq_error {chain : List Location} {path : String} {e : Error} (h : w.fetch chain path = .error e) :
    (∃ fault, w.Unavailable path fault ∧ e = .io path fault) ∨
      (∃ here ∈ chain, w.files.locate w.cwd path = .ok here ∧ e = .parse path (.cycle (chain ++ [here]))) ∨
      ∃ here text ye, w.files.locate w.cwd path = .ok here ∧ w.files.read here = .ok text ∧
        Document.ofYaml text = .error ye ∧ e = .parse path (.yaml ye) := by
  unfold fetch at h
  split at h
  · rename_i fault hl
    cases h
    exact .inl ⟨fault, .unlocated hl, rfl⟩
  rename_i here hl
  split at h
  · rename_i hm
    cases h
    exact .inr (.inl ⟨here, hm, hl, rfl⟩)
  split at h
  · rename_i fault hr
    cases h
    exact .inl ⟨fault, .unread hl hr, rfl⟩
  rename_i text hr
  split at h
  · rename_i ye he
    cases h
    exact .inr (.inr ⟨here, text, ye, hl, hr, he, rfl⟩)
  · cases h

theorem fetch_eq_cycle {chain walk : List Location} {path origin : String}
    (h : w.fetch chain path = .error (.parse origin (.cycle walk))) :
    ∃ here ∈ chain, w.files.locate w.cwd path = .ok here ∧ walk = chain ++ [here] := by
  rcases fetch_eq_error h with ⟨_, -, he⟩ | ⟨here, hm, hl, he⟩ | ⟨_, _, _, -, -, -, he⟩ <;> cases he
  exact ⟨here, hm, hl, rfl⟩

theorem loadBelow_eq_error {levels : Nat} {chain : List Location} {path : String} {e : Error}
    (h : (w.loadBelow levels chain path).value = .error e) :
    w.fetch chain path = .error e ∨ ∃ n here doc, levels = n + 1 ∧ w.fetch chain path = .ok (here, doc) ∧
      (w.foldImports (w.loadBelow n (chain ++ [here])) path here.parent.text doc doc.imports).value =
        .error e := by
  cases hf : w.fetch chain path with
  | error e' =>
    rw [loadBelow_of_fetch_error hf] at h
    cases h
    exact .inl rfl
  | ok r =>
    obtain ⟨here, doc⟩ := r
    cases levels with
    | zero =>
      unfold loadBelow at h
      simp only [hf] at h
      cases h
    | succ n =>
      rw [loadBelow_of_fetch hf] at h
      exact .inr ⟨n, here, doc, rfl, rfl, h⟩

theorem recurs_of_fetch {chain walk : List Location} {path origin : String} {here : Location}
    (hn : chain.Nodup) (hl : w.files.locate w.cwd path = .ok here)
    (hw : (chain ++ [here]).IsChain w.Imports)
    (h : w.fetch chain path = .error (.parse origin (.cycle walk))) :
    w.Recurs walk ∧ ∃ rest, walk = chain ++ here :: rest := by
  obtain ⟨l, hm, hl', rfl⟩ := fetch_eq_cycle h
  rw [hl] at hl'
  cases hl'
  refine ⟨⟨hw, ?_, here, ?_, by simp⟩, [], rfl⟩
  · rwa [List.dropLast_concat]
  · rwa [List.dropLast_concat]

theorem exists_locate_of_cycle {levels : Nat} {chain walk : List Location} {path origin : String}
    (h : (w.loadBelow levels chain path).value = .error (.parse origin (.cycle walk))) :
    ∃ here, w.files.locate w.cwd path = .ok here := by
  cases hl : w.files.locate w.cwd path with
  | ok here => exact ⟨here, rfl⟩
  | error fault =>
    rw [loadBelow_of_fetch_error (fetch_of_locate_error hl _)] at h
    cases h

/-- A cycle that is reported below a chain is a walk that starts with the chain. -/
theorem recurs_of_loadBelow {levels : Nat} {chain walk : List Location} {path origin : String}
    {here : Location} (hn : chain.Nodup) (hl : w.files.locate w.cwd path = .ok here)
    (hw : (chain ++ [here]).IsChain w.Imports)
    (h : (w.loadBelow levels chain path).value = .error (.parse origin (.cycle walk))) :
    w.Recurs walk ∧ ∃ rest, walk = chain ++ here :: rest := by
  induction levels generalizing chain path here origin with
  | zero =>
    rcases loadBelow_eq_error h with hf | ⟨n, l, doc, hlevels, -⟩
    · exact recurs_of_fetch hn hl hw hf
    · cases hlevels
  | succ n ih =>
    rcases loadBelow_eq_error h with hf | ⟨m, l, doc, hm, hf, hfold⟩
    · exact recurs_of_fetch hn hl hw hf
    · cases hm
      obtain ⟨hh, hnew⟩ := fetch_eq_ok.1 hf
      obtain rfl : l = here := Except.ok.inj (hh.located.symm.trans hl)
      obtain ⟨before, raw, after, e, himports, -, he, hcycle⟩ := foldImports_eq_error hfold
      rw [importedBy_eq_cycle hcycle.symm] at he
      obtain ⟨l', hl'⟩ : ∃ l', w.target l raw = .ok l' := exists_locate_of_cycle he
      have hi : w.Imports l l' := ⟨doc, raw, hh.parsed, by simp [himports], hl'⟩
      have hn' : (chain ++ [l]).Nodup := by
        rw [← List.concat_eq_append]
        exact List.Nodup.concat hnew hn
      obtain ⟨hr, rest, rfl⟩ := ih hn' hl' (isChain_snoc hw hi) he
      exact ⟨hr, l' :: rest, by simp⟩

theorem Recurs.cycle {root : Location} {rest : List Location} (h : w.Recurs (root :: rest)) :
    ∃ l, ReflTransGen w.Imports root l ∧ TransGen w.Imports l l := by
  obtain ⟨l, hm, hlast⟩ := h.again
  have hwalk : (root :: rest).dropLast ++ [l] = root :: rest :=
    List.dropLast_append_getLast? l hlast
  have hchained : ((root :: rest).dropLast ++ [l]).IsChain w.Imports := by
    rw [hwalk]
    exact h.chained
  exact ⟨l, reflTransGen_of_isChain h.chained (List.dropLast_subset _ hm), transGen_of_isChain hchained hm⟩

/-- A document loads just when the imports that start at it are well founded. A file that is shared is not taken
for a cycle, whatever else may be wrong, and a file that imports itself, directly or not, is rejected. -/
theorem load_isOk_iff_sound (w : World) (path : String) :
    ((∃ doc, w.load path = .ok doc) ↔ ∃ root, w.files.locate w.cwd path = .ok root ∧ w.Sound root) ∧
      (∀ root, w.files.locate w.cwd path = .ok root →
        (∀ l, ReflTransGen w.Imports root l → ¬ TransGen w.Imports l l) →
          ∀ origin walk, w.load path ≠ .error (.parse origin (.cycle walk))) ∧
      ∀ root l, w.files.locate w.cwd path = .ok root → ReflTransGen w.Imports root l →
        TransGen w.Imports l l → ∃ e, w.load path = .error e := by
  have hiff : (∃ doc, w.load path = .ok doc) ↔
      ∃ root, w.files.locate w.cwd path = .ok root ∧ w.Sound root := by
    constructor
    · rintro ⟨doc, h⟩
      exact (loadBelow_eq_ok w.ample_start h).sound
    · rintro ⟨root, hl, hs⟩
      exact exists_loadBelow w.ample_start hl (.singleton root) hs
  refine ⟨hiff, fun root hl hacyclic origin walk h => ?_, fun root l hl hr hcycle => ?_⟩
  · obtain ⟨hr, rest, rfl⟩ := recurs_of_loadBelow List.nodup_nil hl (.singleton root) h
    obtain ⟨l, hl, hcycle⟩ := hr.cycle
    exact hacyclic l hl hcycle
  · cases h : w.load path with
    | error e => exact ⟨e, rfl⟩
    | ok doc =>
      obtain ⟨root', hl', hs⟩ := hiff.1 ⟨doc, h⟩
      rw [hl] at hl'
      cases hl'
      exact absurd hcycle (hs.acyclic l hr)

/-- `/d/a` and `/d/b` import each other, each in a spelling of its own. -/
def ring : World where
  files := ⟨[(⟨["d", "a"]⟩, .file (some "imports: [../$D/./b]")), (⟨["d", "b"]⟩, .file (some "imports: [/d/a]"))]⟩
  env := .ofList [("D", "d")]

theorem ring_cycle : TransGen ring.Imports ⟨["d", "a"]⟩ ⟨["d", "a"]⟩ := by
  have hab : ring.Imports ⟨["d", "a"]⟩ ⟨["d", "b"]⟩ :=
    ⟨{ imports := ["../$D/./b"] }, "../$D/./b", ⟨"imports: [../$D/./b]", by decide +kernel, by decide +kernel⟩,
      by decide, by decide +kernel⟩
  have hba : ring.Imports ⟨["d", "b"]⟩ ⟨["d", "a"]⟩ :=
    ⟨{ imports := ["/d/a"] }, "/d/a", ⟨"imports: [/d/a]", by decide +kernel, by decide +kernel⟩,
      by decide, by decide +kernel⟩
  exact .tail (.single hab) hba

theorem load_isOk_iff_sound_diamond_ring :
    (∃ doc, diamond.load "/a" = .ok doc) ∧
      (∃ root, diamond.files.locate diamond.cwd "/a" = .ok root ∧ diamond.Sound root ∧
        ∀ origin walk, diamond.load "/a" ≠ .error (.parse origin (.cycle walk))) ∧
      ∃ e, ring.load "d/../d/a" = .error e := by
  have hdoc : ∃ doc, diamond.load "/a" = .ok doc := by
    have h : fault? (diamond.load "/a") = none := by decide +kernel
    exact fault?_eq_none.1 h
  obtain ⟨hiff, hshared, -⟩ := load_isOk_iff_sound diamond "/a"
  obtain ⟨root, hl, hs⟩ := hiff.1 hdoc
  have hstart : ring.files.locate ring.cwd "d/../d/a" = .ok ⟨["d", "a"]⟩ := by decide +kernel
  exact ⟨hdoc, ⟨root, hl, hs, hshared root hl hs.acyclic⟩,
    (load_isOk_iff_sound ring "d/../d/a").2.2 _ _ hstart .refl ring_cycle⟩

end Rollout.World
