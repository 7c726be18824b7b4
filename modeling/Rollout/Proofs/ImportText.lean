import Rollout.Proofs.ImportGraph

/-! A document is the same from its file and from its text. When it is loaded from its file, the file is on the
chain of those being loaded; when its text is given, it is not, and a cycle through it is only noticed one round
later. What a load gives does not depend on the files above, and a cycle stops it in either case. -/

namespace Rollout.World

open Relation

variable {w : World}

/-! ### Two loads of one path -/

theorem foldImports_agree {load load' : String → Traced (Except Error Document)}
    (hload : ∀ path d d', (load path).value = .ok d → (load' path).value = .ok d' → d = d')
    {origin origin' base : String} {raws : List String} {doc r r' : Document}
    (h : (w.foldImports load origin base doc raws).value = .ok r)
    (h' : (w.foldImports load' origin' base doc raws).value = .ok r') : r = r' := by
  induction raws generalizing doc with
  | nil =>
    cases h
    cases h'
    rfl
  | cons raw raws ih =>
    cases hd : (load (Path.join base (w.env.expand raw))).value with
    | error e =>
      rw [foldImports_cons_error hd] at h
      cases h
    | ok d =>
      cases hd' : (load' (Path.join base (w.env.expand raw))).value with
      | error e =>
        rw [foldImports_cons_error hd'] at h'
        cases h'
      | ok d' =>
        obtain rfl := hload _ d d' hd hd'
        rw [foldImports_cons_ok hd] at h
        rw [foldImports_cons_ok hd'] at h'
        exact ih h h'

/-- What a path loads to does not depend on the files that it is loaded below. -/
theorem loadBelow_agree {n m : Nat} {chain chain' : List Location} (hc : w.Ample n chain) (hc' : w.Ample m chain')
    {path : String} {d d' : Document} (h : (w.loadBelow n chain path).value = .ok d)
    (h' : (w.loadBelow m chain' path).value = .ok d') : d = d' := by
  induction n generalizing m chain chain' path d d' with
  | zero =>
    obtain ⟨n, here, root, hn, -⟩ := hc.fold_of_loadBelow h
    cases hn
  | succ n ih =>
    obtain ⟨k, here, root, hk, hh, hc₁, hr⟩ := hc.fold_of_loadBelow h
    cases hk
    obtain ⟨k', here', root', rfl, hh', hc₁', hr'⟩ := hc'.fold_of_loadBelow h'
    obtain ⟨rfl, rfl⟩ := hh.unique hh'
    exact foldImports_agree (fun _ _ _ => ih hc₁ hc₁') hr hr'

/-! ### A text and the file that holds it -/

theorem loadText_of_ofYaml {text base : String} {root : Document} (h : Document.ofYaml text = .ok root) :
    w.loadText text base =
      (w.foldImports (w.loadBelow w.levels []) inlineOrigin base root root.imports).value := by
  simp only [loadText, loadTextTraced, h]

theorem loadText_of_malformed {text : String} {e : Yaml.Error} (h : Document.ofYaml text = .error e) (base : String) :
    w.loadText text base = .error (.parse inlineOrigin (.yaml e)) := by
  simp only [loadText, loadTextTraced, h]

theorem fold_of_loadText {text base : String} {doc : Document} (h : w.loadText text base = .ok doc) :
    ∃ root, Document.ofYaml text = .ok root ∧
      (w.foldImports (w.loadBelow w.levels []) inlineOrigin base root root.imports).value = .ok doc := by
  cases hp : Document.ofYaml text with
  | error e =>
    rw [loadText_of_malformed hp] at h
    cases h
  | ok root => exact ⟨root, rfl, loadText_of_ofYaml hp ▸ h⟩

section

variable {path text : String} {here : Location}

theorem load_of_sound (hl : w.files.locate w.cwd path = .ok here) (hs : w.Sound here) :
    ∃ doc, w.load path = .ok doc :=
  exists_loadBelow w.ample_start hl (.singleton here) hs

theorem sound_of_load (hl : w.files.locate w.cwd path = .ok here) {doc : Document} (h : w.load path = .ok doc) :
    w.Sound here := by
  obtain ⟨root, hroot, hs⟩ := (loadBelow_eq_ok w.ample_start h).sound
  rw [hl] at hroot
  cases hroot
  exact hs

/-- The imports of a sound file load on their own, so they load below nothing at all. -/
theorem loadText_of_sound (ht : w.files.read here = .ok text) (hs : w.Sound here) :
    ∃ doc, w.loadText text here.parent.text = .ok doc := by
  obtain ⟨root, ⟨text', ht', hp⟩, htargets⟩ := hs.intact here .refl
  rw [ht] at ht'
  cases ht'
  rw [loadText_of_ofYaml hp]
  refine exists_foldImports (fun raw hraw => ?_) inlineOrigin root
  obtain ⟨l, hl⟩ := htargets raw hraw
  have hi : w.Imports here l := ⟨root, raw, ⟨text, ht, hp⟩, hraw, hl⟩
  exact load_of_sound hl (hs.imported hi)

/-- If the imports of a text load, then none of them leads back to the file that holds it. -/
theorem sound_of_loadText (ht : w.files.read here = .ok text) {doc : Document}
    (h : w.loadText text here.parent.text = .ok doc) : w.Sound here := by
  obtain ⟨root, hp, hdoc⟩ := fold_of_loadText h
  obtain ⟨below, hu, -⟩ := foldImports_eq_ok (fun _ _ hd => loadBelow_eq_ok w.ample_start hd) hdoc
  exact sound_of_targets ⟨text, ht, hp⟩ hu.sound

theorem load_agree_loadText (hl : w.files.locate w.cwd path = .ok here) (ht : w.files.read here = .ok text)
    {doc doc' : Document} (h : w.load path = .ok doc) (h' : w.loadText text here.parent.text = .ok doc') :
    doc = doc' := by
  obtain ⟨n, l, root, hn, ⟨hl', text', ht', hp⟩, hc, hdoc⟩ := w.ample_start.fold_of_loadBelow h
  rw [hl] at hl'
  cases hl'
  rw [ht] at ht'
  cases ht'
  rw [loadText_of_ofYaml hp] at h'
  exact foldImports_agree (fun _ _ _ => loadBelow_agree hc w.ample_start) hdoc h'

/-- A file that can be read loads just when its text does, seen from the directory of the file, and both give the
same document with the same record of what imports replaced. Where the imports of the file lead into a cycle,
through the file itself or not, both fail. -/
theorem load_iff_loadText (hl : w.files.locate w.cwd path = .ok here) (ht : w.files.read here = .ok text) :
    ((∃ doc, w.load path = .ok doc) ↔ ∃ doc, w.loadText text here.parent.text = .ok doc) ∧
      (∀ doc, w.load path = .ok doc ↔ w.loadText text here.parent.text = .ok doc) ∧
      ∀ l, ReflTransGen w.Imports here l → TransGen w.Imports l l →
        (∃ e, w.load path = .error e) ∧ ∃ e, w.loadText text here.parent.text = .error e := by
  have hiff : ∀ doc, w.load path = .ok doc ↔ w.loadText text here.parent.text = .ok doc := by
    intro doc
    constructor
    · intro h
      obtain ⟨doc', h'⟩ := loadText_of_sound ht (sound_of_load hl h)
      rw [load_agree_loadText hl ht h h']
      exact h'
    · intro h'
      obtain ⟨doc₁, h⟩ := load_of_sound hl (sound_of_loadText ht h')
      rw [← load_agree_loadText hl ht h h']
      exact h
  refine ⟨exists_congr hiff, hiff, fun l hr hcycle => ⟨?_, ?_⟩⟩
  · cases h : w.load path with
    | error e => exact ⟨e, rfl⟩
    | ok doc => exact absurd hcycle ((sound_of_load hl h).acyclic l hr)
  · cases h : w.loadText text here.parent.text with
    | error e => exact ⟨e, rfl⟩
    | ok doc => exact absurd hcycle ((sound_of_loadText ht h).acyclic l hr)

end

theorem load_iff_loadText_diamond_ring :
    (∃ text doc, diamond.files.read ⟨["a"]⟩ = .ok text ∧ diamond.load "/a" = .ok doc ∧
      doc.overrides = [⟨.vars, "x"⟩, ⟨.vars, "x"⟩, ⟨.vars, "x"⟩] ∧ diamond.loadText text "/" = .ok doc) ∧
    (∃ e, ring.load "/d/../d/a" = .error e) ∧ (∃ e, ring.loadText "imports: [../$D/./b]" "/d" = .error e) ∧
      fault? (ring.load "/d/../d/a") =
        some (.parse "/d/a" (.cycle [⟨["d", "a"]⟩, ⟨["d", "b"]⟩, ⟨["d", "a"]⟩])) ∧
      fault? (ring.loadText "imports: [../$D/./b]" "/d") =
        some (.parse "/d/../d/./b" (.cycle [⟨["d", "b"]⟩, ⟨["d", "a"]⟩, ⟨["d", "b"]⟩])) := by
  constructor
  · have h : (diamond.load "/a").toOption.map Document.overrides =
        some [⟨.vars, "x"⟩, ⟨.vars, "x"⟩, ⟨.vars, "x"⟩] := by decide +kernel
    obtain ⟨doc, hdoc, ho⟩ := exists_of_map_toOption h
    have hl : diamond.files.locate diamond.cwd "/a" = .ok ⟨["a"]⟩ := by decide +kernel
    have ht : diamond.files.read ⟨["a"]⟩ =
        .ok "imports: [$D/b, c]\nvars: \x7bx: 1, y: 1\x7d\ndeploys: [s]" := by decide +kernel
    exact ⟨_, doc, ht, hdoc, ho, ((load_iff_loadText hl ht).2.1 doc).1 hdoc⟩
  · have hl : ring.files.locate ring.cwd "/d/../d/a" = .ok ⟨["d", "a"]⟩ := by decide +kernel
    have ht : ring.files.read ⟨["d", "a"]⟩ = .ok "imports: [../$D/./b]" := by decide +kernel
    obtain ⟨hfile, htext⟩ := (load_iff_loadText hl ht).2.2 _ .refl ring_cycle
    exact ⟨hfile, htext, by decide +kernel, by decide +kernel⟩

end Rollout.World
