import Rollout.Import
import Rollout.Proofs.FileTree
import Rollout.Proofs.Merge
import Mathlib.Data.List.Perm.Subperm

/-! Loading a document is folding. The documents of the import tree, each before its imports, are folded into
the first one after another; the depth-first loader comes to the same. Its bound on the depth is never met,
since the files on the way to a document are different entries of the tree. -/

namespace Rollout.World

variable {w : World}

def Parses (w : World) (l : Location) (doc : Document) : Prop :=
  ∃ text, w.files.read l = .ok text ∧ Document.ofYaml text = .ok doc

theorem Parses.unique {l : Location} {d d' : Document} (h : w.Parses l d) (h' : w.Parses l d') : d = d' := by
  obtain ⟨text, ht, hd⟩ := h
  obtain ⟨text', ht', hd'⟩ := h'
  rw [ht] at ht'
  cases ht'
  rw [hd] at hd'
  cases hd'
  rfl

/-- A path denotes a file, and the file holds a document. -/
structure Holds (w : World) (path : String) (here : Location) (doc : Document) : Prop where
  located : w.files.locate w.cwd path = .ok here
  parsed : w.Parses here doc

theorem fetch_eq_ok {chain : List Location} {path : String} {here : Location} {doc : Document} :
    w.fetch chain path = .ok (here, doc) ↔ w.Holds path here doc ∧ here ∉ chain := by
  constructor
  · intro h
    unfold fetch at h
    split at h
    · cases h
    rename_i l hl
    split at h
    · cases h
    rename_i hc
    split at h
    · cases h
    rename_i text ht
    split at h
    · cases h
    rename_i d hd
    cases h
    exact ⟨⟨hl, text, ht, hd⟩, hc⟩
  · rintro ⟨⟨hl, text, ht, hd⟩, hc⟩
    simp [fetch, hl, hc, ht, hd]

theorem Holds.unique {path : String} {l l' : Location} {d d' : Document} (h : w.Holds path l d)
    (h' : w.Holds path l' d') : l = l' ∧ d = d' := by
  obtain rfl := Except.ok.inj (h.located.symm.trans h'.located)
  exact ⟨rfl, h.parsed.unique h'.parsed⟩

/-- The documents that imports listed in the directory `base` stand for: each file, then what it imports itself,
then the next. A file that is imported twice is there twice. -/
inductive Unfolds (w : World) : String → List String → List Document → Prop
  | nil {base : String} : Unfolds w base [] []
  | cons {base raw : String} {raws : List String} {here : Location} {doc : Document}
      {below rest : List Document} (h : w.Holds (Path.join base (w.env.expand raw)) here doc)
      (hb : Unfolds w here.parent.text doc.imports below) (ht : Unfolds w base raws rest) :
    Unfolds w base (raw :: raws) (doc :: (below ++ rest))

theorem Unfolds.unique {base : String} {raws : List String} {ds es : List Document}
    (h : Unfolds w base raws ds) : Unfolds w base raws es → ds = es := by
  induction h generalizing es with
  | nil => rintro ⟨⟩; rfl
  | cons h _ _ ihb iht =>
    rintro (_ | ⟨h', hb', ht'⟩)
    obtain ⟨rfl, rfl⟩ := h.unique h'
    rw [ihb hb', iht ht']

def UnfoldsFile (w : World) (path : String) (ds : List Document) : Prop :=
  ∃ here root below, w.Holds path here root ∧ w.Unfolds here.parent.text root.imports below ∧
    ds = root :: below

/-- The same for a document given as text, with the directory that its imports are seen from. -/
def UnfoldsText (w : World) (text base : String) (ds : List Document) : Prop :=
  ∃ root below, Document.ofYaml text = .ok root ∧ w.Unfolds base root.imports below ∧ ds = root :: below

theorem UnfoldsFile.iff_eq {path : String} {ds : List Document} (h : w.UnfoldsFile path ds)
    (es : List Document) : w.UnfoldsFile path es ↔ es = ds := by
  constructor
  · rintro ⟨here', root', below', hh', hu', rfl⟩
    obtain ⟨here, root, below, hh, hu, rfl⟩ := h
    obtain ⟨rfl, rfl⟩ := hh.unique hh'
    rw [hu.unique hu']
  · rintro rfl
    exact h

theorem UnfoldsText.iff_eq {text base : String} {ds : List Document} (h : w.UnfoldsText text base ds)
    (es : List Document) : w.UnfoldsText text base es ↔ es = ds := by
  constructor
  · rintro ⟨root', below', hroot', hu', rfl⟩
    obtain ⟨root, below, hroot, hu, rfl⟩ := h
    rw [hroot] at hroot'
    cases hroot'
    rw [hu.unique hu']
  · rintro rfl
    exact h

/-! ### The depth is never exhausted -/

/-- The files of a chain are different entries of the tree, and there are levels for all the others. -/
structure Ample (w : World) (levels : Nat) (chain : List Location) : Prop where
  nodup : chain.Nodup
  entries : chain ⊆ w.files.entries.map Prod.fst
  enough : w.levels ≤ chain.length + levels

theorem ample_start (w : World) : w.Ample w.levels [] :=
  ⟨List.nodup_nil, List.nil_subset _, Nat.le_add_left ..⟩

theorem Holds.mem_entries {path : String} {here : Location} {doc : Document} (h : w.Holds path here doc) :
    here ∈ w.files.entries.map Prod.fst := by
  obtain ⟨text, ht, -⟩ := h.parsed
  exact FileTree.mem_entries_of_get? (FileTree.get?_of_read ht) nofun

theorem Ample.step {levels : Nat} {chain : List Location} (h : w.Ample levels chain) {here : Location}
    (hm : here ∈ w.files.entries.map Prod.fst) (hn : here ∉ chain) :
    ∃ n, levels = n + 1 ∧ w.Ample n (chain ++ [here]) := by
  have hnodup : (chain ++ [here]).Nodup := by
    rw [List.nodup_append]
    refine ⟨h.nodup, List.nodup_singleton here, fun a ha b hb => ?_⟩
    rw [List.mem_singleton.1 hb]
    rintro rfl
    exact hn ha
  have hsub : chain ++ [here] ⊆ w.files.entries.map Prod.fst :=
    List.append_subset.2 ⟨h.entries, List.cons_subset.2 ⟨hm, List.nil_subset _⟩⟩
  have hle : chain.length + 1 ≤ w.levels := by
    have := (hnodup.subperm hsub).length_le
    rw [List.length_append, List.length_map] at this
    exact this
  have henough := h.enough
  refine ⟨levels - 1, by omega, hnodup, hsub, ?_⟩
  simp only [List.length_append, List.length_singleton]
  omega

/-! ### One import after another -/

section Imports

variable {load : String → Traced (Except Error Document)} {origin base raw : String} {raws : List String}
  {doc : Document}

theorem foldImports_cons_ok {d : Document} (h : (load (Path.join base (w.env.expand raw))).value = .ok d) :
    (w.foldImports load origin base doc (raw :: raws)).value =
      (w.foldImports load origin base (doc.absorb d) raws).value := by
  rw [foldImports]
  simp only [h]
  rfl

theorem foldImports_cons_error {e : Error}
    (h : (load (Path.join base (w.env.expand raw))).value = .error e) :
    (w.foldImports load origin base doc (raw :: raws)).value = .error (e.importedBy origin) := by
  rw [foldImports]
  simp only [h]

theorem loadBelow_of_fetch_error {levels : Nat} {chain : List Location} {path : String} {e : Error}
    (h : w.fetch chain path = .error e) : (w.loadBelow levels chain path).value = .error e := by
  unfold loadBelow
  simp only [h]

theorem loadBelow_of_fetch {levels : Nat} {chain : List Location} {path : String} {here : Location}
    (h : w.fetch chain path = .ok (here, doc)) :
    (w.loadBelow (levels + 1) chain path).value =
      (w.foldImports (w.loadBelow levels (chain ++ [here])) path here.parent.text doc doc.imports).value := by
  rw [loadBelow]
  simp only [h]
  rfl

end Imports

/-- A file that loads below a chain is a document with its imports folded in. No level is left only when every
file is on the chain, so there is one for the imports. -/
theorem Ample.fold_of_loadBelow {levels : Nat} {chain : List Location} (hc : w.Ample levels chain) {path : String}
    {doc : Document} (h : (w.loadBelow levels chain path).value = .ok doc) :
    ∃ n here root, levels = n + 1 ∧ w.Holds path here root ∧ w.Ample n (chain ++ [here]) ∧
      (w.foldImports (w.loadBelow n (chain ++ [here])) path here.parent.text root root.imports).value =
        .ok doc := by
  cases hf : w.fetch chain path with
  | error e =>
    rw [loadBelow_of_fetch_error hf] at h
    cases h
  | ok r =>
    obtain ⟨here, root⟩ := r
    obtain ⟨hh, hn⟩ := fetch_eq_ok.1 hf
    obtain ⟨n, rfl, hc'⟩ := hc.step hh.mem_entries hn
    rw [loadBelow_of_fetch hf] at h
    exact ⟨n, here, root, rfl, hh, hc', h⟩

/-! ### Folding -/

/-- What loading a path gives is tied by `Q` to the documents of the import tree. -/
def Gathers (w : World) (Q : Document → List Document → Prop) (path : String) (doc : Document) : Prop :=
  ∃ here root below, w.Holds path here root ∧ w.Unfolds here.parent.text root.imports below ∧
    Q doc (root :: below)

section Gathering

/-! Whatever ties a parsed document to itself, and what was folded together to all that went into it, ties a
loaded document to its import tree. -/

variable {Q : Document → List Document → Prop}

theorem foldImports_gathers
    (hfold : ∀ {a x xs b y ys}, Q a (x :: xs) → Q b (y :: ys) → Q (a.absorb b) (x :: (xs ++ y :: ys)))
    {load : String → Traced (Except Error Document)}
    (hload : ∀ path d, (load path).value = .ok d → w.Gathers Q path d) {origin base : String}
    {raws : List String} {doc result x : Document} {xs : List Document} (hdoc : Q doc (x :: xs))
    (h : (w.foldImports load origin base doc raws).value = .ok result) :
    ∃ below, w.Unfolds base raws below ∧ Q result (x :: (xs ++ below)) := by
  induction raws generalizing doc xs with
  | nil =>
    cases h
    exact ⟨[], .nil, by rwa [List.append_nil]⟩
  | cons raw raws ih =>
    cases hd : (load (Path.join base (w.env.expand raw))).value with
    | error e =>
      rw [foldImports_cons_error hd] at h
      cases h
    | ok d =>
      rw [foldImports_cons_ok hd] at h
      obtain ⟨here, root, below, hh, hu, hQ⟩ := hload _ _ hd
      obtain ⟨rest, hrest, hresult⟩ := ih (hfold hdoc hQ) h
      refine ⟨root :: (below ++ rest), .cons hh hu hrest, ?_⟩
      rwa [List.append_assoc, List.cons_append] at hresult

theorem loadBelow_gathers (hone : ∀ {text d}, Document.ofYaml text = .ok d → Q d [d])
    (hfold : ∀ {a x xs b y ys}, Q a (x :: xs) → Q b (y :: ys) → Q (a.absorb b) (x :: (xs ++ y :: ys)))
    {levels : Nat} {chain : List Location} (hc : w.Ample levels chain) {path : String} {doc : Document}
    (h : (w.loadBelow levels chain path).value = .ok doc) : w.Gathers Q path doc := by
  induction levels generalizing chain path doc with
  | zero =>
    obtain ⟨n, here, root, hn, -⟩ := hc.fold_of_loadBelow h
    cases hn
  | succ n ih =>
    obtain ⟨m, here, root, hm, hh, hc', hdoc⟩ := hc.fold_of_loadBelow h
    cases hm
    obtain ⟨text, -, hp⟩ := hh.parsed
    obtain ⟨below, hu, hQ⟩ := foldImports_gathers hfold (fun _ _ hd => ih hc' hd) (hone hp) hdoc
    exact ⟨here, root, below, hh, hu, hQ⟩

end Gathering

/-- What the documents of a list come to when they are folded into the first. -/
def Folds (doc : Document) (ds : List Document) : Prop := doc.bare = (Document.mergeAll ds).bare

def LoadsTo (w : World) : String → Document → Prop := w.Gathers Folds

theorem Folds.absorb {a x b y : Document} {xs ys : List Document} (ha : Folds a (x :: xs))
    (hb : Folds b (y :: ys)) : Folds (a.absorb b) (x :: (xs ++ y :: ys)) := by
  unfold Folds at ha hb ⊢
  calc (a.absorb b).bare = a.bare.merge b.bare := by
        rw [Document.bare_absorb, Document.bare_merge]
    _ = ((Document.mergeAll (x :: xs)).merge (Document.mergeAll (y :: ys))).bare := by
        rw [ha, hb, Document.merge_bare, ← Document.bare_merge]
    _ = (Document.mergeAll (x :: (xs ++ y :: ys))).bare := by
        rw [Document.merge_mergeAll, Document.mergeAll_append]

theorem foldImports_eq_ok {load : String → Traced (Except Error Document)}
    (hload : ∀ path d, (load path).value = .ok d → w.LoadsTo path d) {origin base : String}
    {raws : List String} {doc result : Document}
    (h : (w.foldImports load origin base doc raws).value = .ok result) :
    ∃ below, w.Unfolds base raws below ∧ Folds result (doc :: below) := by
  have hdoc : Folds doc [doc] := rfl
  exact foldImports_gathers Folds.absorb hload hdoc h

theorem loadBelow_eq_ok {levels : Nat} {chain : List Location} (hc : w.Ample levels chain) {path : String}
    {doc : Document} (h : (w.loadBelow levels chain path).value = .ok doc) : w.LoadsTo path doc :=
  loadBelow_gathers (Q := Folds) (fun _ => rfl) Folds.absorb hc h

/-- A document that is what the documents of a list come to when they are folded into the first. -/
structure Flat (doc : Document) (ds : List Document) : Prop where
  /-- Every section is that of the fold. -/
  parts : ∀ s, doc.part s = (Document.mergeAll ds).part s
  /-- An entry is in the document just when the last document with its key has it. -/
  entries : ∀ s key v, (doc.part s).get? key = some v ↔ Document.LastEntry s ds key v
  deploys : doc.deploys = (Document.mergeAll ds).deploys ∧ doc.deploys = ds.flatMap Document.deploys
  imports : ds.head?.map Document.imports = some doc.imports

theorem Folds.flat {doc root : Document} {below : List Document} (h : Folds doc (root :: below)) :
    Flat doc (root :: below) := by
  unfold Folds at h
  have hparts : ∀ s, doc.part s = (Document.mergeAll (root :: below)).part s := by
    intro s
    rw [← Document.part_bare, h, Document.part_bare]
  have hdeploys : doc.deploys = (Document.mergeAll (root :: below)).deploys := by
    change doc.bare.deploys = _
    rw [h]
    rfl
  have himports : doc.imports = (Document.mergeAll (root :: below)).imports := by
    change doc.bare.imports = _
    rw [h]
    rfl
  refine ⟨hparts, fun s key v => ?_, ⟨hdeploys, ?_⟩, ?_⟩
  · rw [hparts, Document.get?_mergeAll_eq_some]
  · rw [hdeploys, Document.deploys_mergeAll]
  · rw [himports, Document.imports_mergeAll]
    rfl

/-- A document that loads has one import tree, and it is what the documents of the tree come to when they are
folded into the first one after another, each before its imports. -/
theorem load_flat (w : World) :
    (∀ path doc, w.load path = .ok doc →
        ∃ ds, (∀ es, w.UnfoldsFile path es ↔ es = ds) ∧ Flat doc ds) ∧
      ∀ text base doc, w.loadText text base = .ok doc →
        ∃ ds, (∀ es, w.UnfoldsText text base es ↔ es = ds) ∧ Flat doc ds := by
  constructor
  · intro path doc h
    obtain ⟨here, root, below, hh, hu, hfolds⟩ := loadBelow_eq_ok w.ample_start h
    exact ⟨root :: below, UnfoldsFile.iff_eq ⟨here, root, below, hh, hu, rfl⟩, hfolds.flat⟩
  · intro text base doc h
    unfold loadText loadTextTraced at h
    split at h
    · cases h
    rename_i root hroot
    obtain ⟨below, hu, hfolds⟩ := foldImports_eq_ok (fun p d hd => loadBelow_eq_ok w.ample_start hd) h
    exact ⟨root :: below, UnfoldsText.iff_eq ⟨root, below, hroot, hu, rfl⟩, hfolds.flat⟩

/-- `/a` imports `/d/b` and `/c`, and `/d/b` imports `/c` as well. -/
def diamond : World where
  files := ⟨[(⟨["a"]⟩, .file (some "imports: [$D/b, c]\nvars: \x7bx: 1, y: 1\x7d\ndeploys: [s]")),
    (⟨["d", "b"]⟩, .file (some "imports: [../c]\nvars: \x7bx: 2, z: 2\x7d\ndeploys: [t]")),
    (⟨["c"]⟩, .file (some "vars: \x7bx: 3\x7d\ndeploys: [u]"))]⟩
  env := .ofList [("D", "d")]

def loaded (r : Except Error Document) : Option (List (String × String) × List String) :=
  r.toOption.map fun d => (d.vars.entries, d.deploys)

theorem exists_of_loaded {r : Except Error Document} {x : List (String × String) × List String}
    (h : loaded r = some x) : ∃ doc, r = .ok doc ∧ (doc.vars.entries, doc.deploys) = x := by
  cases r with
  | error e => cases h
  | ok doc => exact ⟨doc, rfl, Option.some.inj h⟩

theorem load_flat_diamond :
    (∃ doc, diamond.load "/a" = .ok doc ∧
      (doc.vars.entries, doc.deploys) = ([("x", "3"), ("y", "1"), ("z", "2")], ["s", "t", "u", "u"]) ∧
      ∃ ds, (∀ es, diamond.UnfoldsFile "/a" es ↔ es = ds) ∧ Flat doc ds) ∧
    ∃ doc, diamond.loadText "imports: [b]\nvars: \x7bz: 4\x7d" "/d" = .ok doc ∧
      (doc.vars.entries, doc.deploys) = ([("x", "3"), ("z", "2")], ["t", "u"]) ∧
      ∃ ds, (∀ es, diamond.UnfoldsText "imports: [b]\nvars: \x7bz: 4\x7d" "/d" es ↔ es = ds) ∧
        Flat doc ds := by
  constructor
  · have h : loaded (diamond.load "/a") =
        some ([("x", "3"), ("y", "1"), ("z", "2")], ["s", "t", "u", "u"]) := by decide +kernel
    obtain ⟨doc, hdoc, hx⟩ := exists_of_loaded h
    exact ⟨doc, hdoc, hx, (load_flat diamond).1 "/a" doc hdoc⟩
  · have h : loaded (diamond.loadText "imports: [b]\nvars: \x7bz: 4\x7d" "/d") =
        some ([("x", "3"), ("z", "2")], ["t", "u"]) := by decide +kernel
    obtain ⟨doc, hdoc, hx⟩ := exists_of_loaded h
    exact ⟨doc, hdoc, hx, (load_flat diamond).2 _ "/d" doc hdoc⟩

end Rollout.World
