import Rollout.Proofs.ImportText

/-! Which document a failed load is blamed on. The requests for files that a load can come to are gone through depth
first and in the order of the import lists; the first that cannot be met is the error. An import that cannot be found
or read is a fault of the document that names it, at whatever depth that stands; a file that is no document, or that is
being loaded already, is at fault itself. -/

namespace Rollout

namespace Error

theorem importedBy_ne_io (e : Error) (origin path : String) (fault : FileFault) :
    e.importedBy origin ≠ .io path fault := by
  cases e <;> simp [importedBy]

def seenBy : Option String → Error → Error
  | none, e => e
  | some origin, e => e.importedBy origin

theorem seenBy_none : seenBy none = id := rfl

theorem seenBy_parse (importer : Option String) (path : String) (cause : ParseCause) :
    seenBy importer (.parse path cause) = .parse path cause := by
  cases importer <;> rfl

/-- Once an import has been blamed, nobody above is. -/
theorem seenBy_importedBy (importer : Option String) (e : Error) (origin : String) :
    seenBy importer (e.importedBy origin) = e.importedBy origin := by
  cases importer <;> cases e <;> rfl

end Error

namespace World

variable {w : World}

/-- A file that is asked for, below the files that are being loaded. -/
structure Request where
  chain : List Location
  /-- How the document that imports the file was asked for itself; the first file is imported by none. -/
  importer : Option String
  path : String

def requests (w : World) (chain : List Location) (origin base : String) (raws : List String) : List Request :=
  raws.map fun raw => ⟨chain, some origin, Path.join base (w.env.expand raw)⟩

/-- The file is there, it is a document, and it is not being loaded already. -/
def Opens (w : World) (r : Request) (here : Location) (doc : Document) : Prop :=
  w.Holds r.path here doc ∧ here ∉ r.chain

/-- The requests of a list and all below them: each before those of its own imports, and these before the next. A
request that does not open has none below it. -/
inductive Tours (w : World) : List Request → List Request → Prop
  | nil : Tours w [] []
  | shut {r : Request} {rs rest : List Request} (h : ∀ here doc, ¬w.Opens r here doc) (ht : Tours w rs rest) :
    Tours w (r :: rs) (r :: rest)
  | opened {r : Request} {rs below rest : List Request} {here : Location} {doc : Document} (h : w.Opens r here doc)
      (hb : Tours w (w.requests (r.chain ++ [here]) r.path here.parent.text doc.imports) below)
      (ht : Tours w rs rest) :
    Tours w (r :: rs) (r :: (below ++ rest))

/-- What a request that is not met is blamed on, and why. -/
inductive Blamed (w : World) (r : Request) : String → ParseCause → Prop
  | importer {origin : String} {fault : FileFault} (hi : r.importer = some origin)
      (h : w.Unavailable r.path fault) : Blamed w r origin (.unreadable r.path fault)
  | malformed {here : Location} {text : String} {e : Yaml.Error} (hl : w.files.locate w.cwd r.path = .ok here)
      (hr : w.files.read here = .ok text) (h : Document.ofYaml text = .error e) : Blamed w r r.path (.yaml e)
  | cycle {here : Location} (hl : w.files.locate w.cwd r.path = .ok here) (h : here ∈ r.chain) :
    Blamed w r r.path (.cycle (r.chain ++ [here]))

def FirstBlamed (w : World) (tour : List Request) (origin : String) (cause : ParseCause) : Prop :=
  ∃ before r after, tour = before ++ r :: after ∧ (∀ r' ∈ before, ∃ here doc, w.Opens r' here doc) ∧
    w.Blamed r origin cause

def Legible (w : World) (chain : List Location) : Prop := ∀ l ∈ chain, ∃ doc, w.Parses l doc

/-! ### Tours -/

theorem Opens.unique {r : Request} {l l' : Location} {d d' : Document} (h : w.Opens r l d) (h' : w.Opens r l' d') :
    l = l' ∧ d = d' :=
  h.1.unique h'.1

theorem Tours.unique {rs tour tour' : List Request} (h : w.Tours rs tour) (h' : w.Tours rs tour') : tour = tour' := by
  induction h generalizing tour' with
  | nil =>
    cases h'
    rfl
  | shut hn _ ih =>
    cases h' with
    | shut _ ht' => rw [ih ht']
    | opened ho' => exact absurd ho' (hn _ _)
  | opened ho _ _ ihb iht =>
    cases h' with
    | shut hn' => exact absurd ho (hn' _ _)
    | opened ho' hb' ht' =>
      obtain ⟨rfl, rfl⟩ := ho.unique ho'
      rw [ihb hb', iht ht']

theorem Tours.cons {r : Request} {rs tour rest : List Request} (h : w.Tours [r] tour) (ht : w.Tours rs rest) :
    w.Tours (r :: rs) (tour ++ rest) := by
  cases h with
  | shut hn hnil =>
    cases hnil
    exact .shut hn ht
  | opened ho hb hnil =>
    cases hnil
    rw [List.append_nil]
    exact .opened ho hb ht

theorem Tours.legible {rs tour : List Request} (h : w.Tours rs tour) (hrs : ∀ r ∈ rs, w.Legible r.chain) :
    ∀ r ∈ tour, w.Legible r.chain := by
  induction h with
  | nil => exact hrs
  | shut _ _ ih =>
    obtain ⟨hr, hrs⟩ := List.forall_mem_cons.1 hrs
    exact List.forall_mem_cons.2 ⟨hr, ih hrs⟩
  | @opened r rs below rest here doc ho _ _ ihb iht =>
    obtain ⟨hr, hrs⟩ := List.forall_mem_cons.1 hrs
    refine List.forall_mem_cons.2 ⟨hr, List.forall_mem_append.2 ⟨ihb fun r' hr' l hl => ?_, iht hrs⟩⟩
    obtain ⟨raw, -, rfl⟩ := List.mem_map.1 hr'
    rcases List.mem_append.1 hl with hl | hl
    · exact hr l hl
    -- a file is put on the chain when it has been read as a document
    · rw [List.mem_singleton.1 hl]
      exact ⟨doc, ho.1.parsed⟩

/-! ### One request -/

section Fetch

variable {chain : List Location} {path : String}

variable (hchain : w.Legible chain)
include hchain

/-- What can be told of a file by reading it is told of a file that is not on the chain. -/
theorem fetch_of_unavailable {fault : FileFault} (h : w.Unavailable path fault) :
    w.fetch chain path = .error (.io path fault) := by
  cases h with
  | unlocated hl => exact fetch_of_locate_error hl chain
  | @unread here _ hl hr =>
    have hn : here ∉ chain := by
      intro hm
      obtain ⟨doc, text, ht, -⟩ := hchain here hm
      cases hr.symm.trans ht
    simp [fetch, hl, hn, hr]

theorem fetch_of_malformed {here : Location} {text : String} {e : Yaml.Error}
    (hl : w.files.locate w.cwd path = .ok here) (hr : w.files.read here = .ok text)
    (he : Document.ofYaml text = .error e) : w.fetch chain path = .error (.parse path (.yaml e)) := by
  have hn : here ∉ chain := by
    intro hm
    obtain ⟨doc, text', ht, hp⟩ := hchain here hm
    cases hr.symm.trans ht
    cases he.symm.trans hp
  simp [fetch, hl, hn, hr, he]

end Fetch

/-- What a request fails with, as it leaves the document that makes it. -/
def refusal? (w : World) (r : Request) : Option Error :=
  (fault? (w.fetch r.chain r.path)).map (Error.seenBy r.importer)

theorem refusal?_of_fetch (r : Request) {e : Error} (h : w.fetch r.chain r.path = .error e) :
    w.refusal? r = some (e.seenBy r.importer) := by
  rw [refusal?, h]
  rfl

theorem refusal?_eq_none {r : Request} : w.refusal? r = none ↔ ∃ here doc, w.Opens r here doc := by
  rw [refusal?, Option.map_eq_none_iff, fault?_eq_none]
  constructor
  · rintro ⟨⟨here, doc⟩, h⟩
    exact ⟨here, doc, fetch_eq_ok.1 h⟩
  · rintro ⟨here, doc, h⟩
    exact ⟨(here, doc), fetch_eq_ok.2 h⟩

theorem refusal?_eq_parse {r : Request} (hchain : w.Legible r.chain) {origin : String} {cause : ParseCause} :
    w.refusal? r = some (.parse origin cause) ↔ w.Blamed r origin cause := by
  constructor
  · intro h
    obtain ⟨e, he, hseen⟩ := Option.map_eq_some_iff.1 h
    rcases fetch_eq_error (fault?_eq_some.1 he) with
      ⟨fault, hu, rfl⟩ | ⟨here, hm, hl, rfl⟩ | ⟨here, text, ye, hl, hr, hp, rfl⟩
    · cases hi : r.importer with
      | none =>
        rw [hi] at hseen
        cases hseen
      | some o =>
        rw [hi] at hseen
        cases hseen
        exact .importer hi hu
    · rw [Error.seenBy_parse] at hseen
      cases hseen
      exact .cycle hl hm
    · rw [Error.seenBy_parse] at hseen
      cases hseen
      exact .malformed hl hr hp
  · intro h
    cases h with
    | importer hi hu =>
      rw [refusal?_of_fetch r (fetch_of_unavailable hchain hu), hi]
      rfl
    | malformed hl hr he =>
      rw [refusal?_of_fetch r (fetch_of_malformed hchain hl hr he), Error.seenBy_parse]
    | @cycle here hl hm =>
      have hf : w.fetch r.chain r.path = .error (.parse r.path (.cycle (r.chain ++ [here]))) := by
        simp [fetch, hl, hm]
      rw [refusal?_of_fetch r hf, Error.seenBy_parse]

/-! ### A whole load -/

theorem foldImports_tours {load : String → Traced (Except Error Document)} {chain : List Location} {origin : String}
    (hload : ∀ path, ∃ tour, w.Tours [⟨chain, some origin, path⟩] tour ∧
      (fault? (load path).value).map (Error.seenBy (some origin)) = tour.findSome? w.refusal?) (base : String)
    (doc : Document) (raws : List String) :
    ∃ tour, w.Tours (w.requests chain origin base raws) tour ∧
      fault? (w.foldImports load origin base doc raws).value = tour.findSome? w.refusal? := by
  induction raws generalizing doc with
  | nil => exact ⟨[], .nil, rfl⟩
  | cons raw raws ih =>
    obtain ⟨tour, htour, hfirst⟩ := hload (Path.join base (w.env.expand raw))
    cases hd : (load (Path.join base (w.env.expand raw))).value with
    | error e =>
      obtain ⟨rest, hrest, -⟩ := ih doc
      refine ⟨tour ++ rest, htour.cons hrest, ?_⟩
      rw [hd] at hfirst
      rw [foldImports_cons_error hd, List.findSome?_append, ← hfirst]
      rfl
    | ok d =>
      obtain ⟨rest, hrest, hfault⟩ := ih (doc.absorb d)
      refine ⟨tour ++ rest, htour.cons hrest, ?_⟩
      rw [hd] at hfirst
      rw [foldImports_cons_ok hd, hfault, List.findSome?_append, ← hfirst]
      rfl

theorem loadBelow_tours_of_fetch_error {levels : Nat} {chain : List Location} {path : String} {e : Error}
    (h : w.fetch chain path = .error e) (importer : Option String) :
    ∃ tour, w.Tours [⟨chain, importer, path⟩] tour ∧
      (fault? (w.loadBelow levels chain path).value).map (Error.seenBy importer) = tour.findSome? w.refusal? := by
  have hshut : ∀ here doc, ¬w.Opens ⟨chain, importer, path⟩ here doc := by
    intro here doc ho
    cases h.symm.trans (fetch_eq_ok.2 ho)
  refine ⟨_, .shut hshut .nil, ?_⟩
  rw [loadBelow_of_fetch_error h, List.findSome?_singleton, refusal?_of_fetch ⟨chain, importer, path⟩ h]
  rfl

theorem loadBelow_tours {levels : Nat} {chain : List Location} (hc : w.Ample levels chain) (importer : Option String)
    (path : String) :
    ∃ tour, w.Tours [⟨chain, importer, path⟩] tour ∧
      (fault? (w.loadBelow levels chain path).value).map (Error.seenBy importer) = tour.findSome? w.refusal? := by
  induction levels generalizing chain importer path with
  | zero =>
    cases hf : w.fetch chain path with
    | error e => exact loadBelow_tours_of_fetch_error hf importer
    | ok r =>
      -- every file is on the chain, and this one is not
      obtain ⟨hh, hn⟩ := fetch_eq_ok.1 hf
      obtain ⟨m, hm, -⟩ := hc.step hh.mem_entries hn
      cases hm
  | succ n ih =>
    cases hf : w.fetch chain path with
    | error e => exact loadBelow_tours_of_fetch_error hf importer
    | ok r =>
      obtain ⟨here, doc⟩ := r
      have ho : w.Opens ⟨chain, importer, path⟩ here doc := fetch_eq_ok.1 hf
      obtain ⟨m, hm, hc'⟩ := hc.step ho.1.mem_entries ho.2
      cases hm
      obtain ⟨below, hbelow, hfault⟩ := foldImports_tours (ih hc' (some path)) here.parent.text doc doc.imports
      refine ⟨_, .opened ho hbelow .nil, ?_⟩
      rw [loadBelow_of_fetch hf, List.findSome?_cons, refusal?_eq_none.2 ⟨here, doc, ho⟩, List.append_nil, ← hfault]
      -- what comes up from below has been blamed on this document or on one below it
      cases hfold : (w.foldImports (w.loadBelow n (chain ++ [here])) path here.parent.text doc doc.imports).value with
      | ok d => rfl
      | error e =>
        obtain ⟨-, -, -, e', -, -, -, rfl⟩ := foldImports_eq_error hfold
        rw [fault?_error, Option.map_some, Error.seenBy_importedBy]

theorem firstBlamed_iff {tour : List Request} (h : ∀ r ∈ tour, w.Legible r.chain) {origin : String}
    {cause : ParseCause} :
    tour.findSome? w.refusal? = some (.parse origin cause) ↔ w.FirstBlamed tour origin cause := by
  rw [List.findSome?_eq_some_iff]
  refine exists_congr fun before => exists_congr fun r => exists_congr fun after => ?_
  constructor
  · rintro ⟨rfl, hr, hbefore⟩
    exact ⟨rfl, fun r' hr' => refusal?_eq_none.1 (hbefore r' hr'), (refusal?_eq_parse (h r (by simp))).1 hr⟩
  · rintro ⟨rfl, hbefore, hr⟩
    exact ⟨rfl, (refusal?_eq_parse (h r (by simp))).2 hr, fun r' hr' => refusal?_eq_none.2 (hbefore r' hr')⟩

theorem io_or_parse_of_refusal? {r : Request} {e : Error} (h : w.refusal? r = some e) :
    (∃ fault, e = .io r.path fault) ∨ ∃ origin cause, e = .parse origin cause := by
  obtain ⟨e', he', rfl⟩ := Option.map_eq_some_iff.1 h
  rcases fetch_eq_error (fault?_eq_some.1 he') with ⟨fault, -, rfl⟩ | ⟨_, -, -, rfl⟩ | ⟨_, _, _, -, -, -, rfl⟩
  · cases r.importer with
    | none => exact .inl ⟨fault, rfl⟩
    | some origin => exact .inr ⟨origin, _, rfl⟩
  · exact .inr ⟨_, _, Error.seenBy_parse ..⟩
  · exact .inr ⟨_, _, Error.seenBy_parse ..⟩

/-- A result that fails as a tour does, and not with an I/O error, is decided by the first request to blame. -/
theorem Tours.blames {rs tour : List Request} (htour : w.Tours rs tour) (hrs : ∀ r ∈ rs, r.chain = [])
    {x : Except Error Document} (hx : fault? x = tour.findSome? w.refusal?)
    (hio : ∀ path fault, x ≠ .error (.io path fault)) :
    ∃ tour, (∀ t, w.Tours rs t ↔ t = tour) ∧
      ∀ e, x = .error e ↔ ∃ origin cause, e = .parse origin cause ∧ w.FirstBlamed tour origin cause := by
  have hlegible : ∀ r ∈ tour, w.Legible r.chain := by
    refine htour.legible fun r hr l hl => ?_
    rw [hrs r hr] at hl
    cases hl
  refine ⟨tour, fun t => ⟨fun h => h.unique htour, fun h => h ▸ htour⟩, fun e => ⟨fun h => ?_, ?_⟩⟩
  · have hfirst : tour.findSome? w.refusal? = some e := hx ▸ fault?_eq_some.2 h
    obtain ⟨-, r, -, -, hr, -⟩ := List.findSome?_eq_some_iff.1 hfirst
    rcases io_or_parse_of_refusal? hr with ⟨fault, rfl⟩ | ⟨origin, cause, rfl⟩
    · exact absurd h (hio _ _)
    · exact ⟨origin, cause, rfl, (firstBlamed_iff hlegible).1 hfirst⟩
  · rintro ⟨origin, cause, rfl, h⟩
    exact fault?_eq_some.1 (hx.trans ((firstBlamed_iff hlegible).2 h))

theorem load_eq_io {path q : String} {fault : FileFault} :
    w.load path = .error (.io q fault) ↔ q = path ∧ w.Unavailable path fault := by
  constructor
  · intro h
    rcases loadBelow_eq_error h with hf | ⟨n, here, doc, -, -, hfold⟩
    · rcases fetch_eq_error hf with ⟨_, hu, he⟩ | ⟨_, _, _, he⟩ | ⟨_, _, _, _, _, _, he⟩ <;> cases he
      exact ⟨rfl, hu⟩
    · obtain ⟨-, -, -, e, -, -, -, he⟩ := foldImports_eq_error hfold
      exact absurd he.symm (e.importedBy_ne_io path q fault)
  · rintro ⟨rfl, hu⟩
    exact loadBelow_of_fetch_error (fetch_of_unavailable (List.forall_mem_nil _) hu)

theorem loadText_ne_io (text base path : String) (fault : FileFault) :
    w.loadText text base ≠ .error (.io path fault) := by
  intro h
  cases hp : Document.ofYaml text with
  | error e =>
    rw [loadText_of_malformed hp] at h
    cases h
  | ok root =>
    rw [loadText_of_ofYaml hp] at h
    obtain ⟨-, -, -, e, -, -, -, he⟩ := foldImports_eq_error h
    exact e.importedBy_ne_io _ _ _ he.symm

/-- Nothing but an unavailable first file leaves a load as an I/O error, and the first request of the tour that is not
met decides every other failure. -/
theorem load_blames_first (w : World) :
    (∀ path q fault, w.load path = .error (.io q fault) ↔ q = path ∧ w.Unavailable path fault) ∧
      (∀ text base q fault, w.loadText text base ≠ .error (.io q fault)) ∧
      (∀ path, (∀ fault, ¬w.Unavailable path fault) →
        ∃ tour, (∀ t, w.Tours [⟨[], none, path⟩] t ↔ t = tour) ∧
          ∀ e, w.load path = .error e ↔ ∃ origin cause, e = .parse origin cause ∧ w.FirstBlamed tour origin cause) ∧
      (∀ text base e, Document.ofYaml text = .error e →
        w.loadText text base = .error (.parse inlineOrigin (.yaml e))) ∧
      (∀ text base doc, Document.ofYaml text = .ok doc →
        ∃ tour, (∀ t, w.Tours (w.requests [] inlineOrigin base doc.imports) t ↔ t = tour) ∧
          ∀ e, w.loadText text base = .error e ↔
            ∃ origin cause, e = .parse origin cause ∧ w.FirstBlamed tour origin cause) ∧
      ∀ path fault, (ParseCause.unreadable path fault).message =
        "cannot load import " ++ path ++ ": " ++ fault.message := by
  refine ⟨fun _ _ _ => load_eq_io, loadText_ne_io, fun path havailable => ?_, fun _ base _ h =>
    loadText_of_malformed h base, fun text base doc hp => ?_, fun _ _ => rfl⟩
  · obtain ⟨tour, htour, hfault⟩ := loadBelow_tours w.ample_start none path
    rw [Error.seenBy_none, Option.map_id, id] at hfault
    exact htour.blames (by simp) hfault fun q fault h => havailable fault (load_eq_io.1 h).2
  · obtain ⟨tour, htour, hfault⟩ := foldImports_tours (loadBelow_tours w.ample_start (some inlineOrigin)) base doc
      doc.imports
    refine htour.blames (fun r hr => ?_) (by rw [loadText_of_ofYaml hp, hfault]) (loadText_ne_io text base)
    obtain ⟨raw, -, rfl⟩ := List.mem_map.1 hr
    rfl

/-- `/a` imports `/d/b`, which imports `/d/c`, which imports a file that is not there; `/e` is no document, and `/f` is
a directory. -/
def frayed : World where
  files := ⟨[(⟨["a"]⟩, .file (some "imports: [d/./b, e]")), (⟨["d", "b"]⟩, .file (some "imports: [../d/c]")),
    (⟨["d", "c"]⟩, .file (some "imports: [$X.yml]")), (⟨["e"]⟩, .file (some "jobs: [")), (⟨["f"]⟩, .directory)]⟩
  env := .ofList [("X", "gone")]

theorem load_blames_first_frayed :
    frayed.load "/f" = .error (.io "/f" .isDirectory) ∧
      (∃ tour, (∀ t, frayed.Tours [⟨[], none, "/a"⟩] t ↔ t = tour) ∧
        frayed.FirstBlamed tour "/d/../d/c" (.unreadable "/d/gone.yml" .notFound)) ∧
      (Error.parse "/d/../d/c" (.unreadable "/d/gone.yml" .notFound)).message =
        "failed to parse /d/../d/c: cannot load import /d/gone.yml: No such file or directory (os error 2)" ∧
      frayed.loadText "[" "/" = .error (.parse "<inline>" (.yaml .illFormed)) ∧
      ∃ tour, (∀ t, frayed.Tours (frayed.requests [] "<inline>" "/" ["e", "d/b"]) t ↔ t = tour) ∧
        frayed.FirstBlamed tour "/e" (.yaml .illFormed) := by
  obtain ⟨hio, -, hfile, hmalformed, htext, -⟩ := load_blames_first frayed
  have hf : frayed.files.locate frayed.cwd "/f" = .ok ⟨["f"]⟩ := by decide +kernel
  have ha : frayed.files.locate frayed.cwd "/a" = .ok ⟨["a"]⟩ := by decide +kernel
  have hread : frayed.files.read ⟨["a"]⟩ = .ok "imports: [d/./b, e]" := by decide +kernel
  have hopen : ∀ fault, ¬frayed.Unavailable "/a" fault := by
    rintro fault (h | ⟨hl, hr⟩)
    · cases ha.symm.trans h
    · cases ha.symm.trans hl
      cases hread.symm.trans hr
  have hdoc : Document.ofYaml "imports: [e, d/b]" = .ok { imports := ["e", "d/b"] } := by decide +kernel
  obtain ⟨tour, htour, hblame⟩ := hfile "/a" hopen
  obtain ⟨tour', htour', hblame'⟩ := htext _ "/" _ hdoc
  have hload : fault? (frayed.load "/a") =
      some (.parse "/d/../d/c" (.unreadable "/d/gone.yml" .notFound)) := by decide +kernel
  have hload' : fault? (frayed.loadText "imports: [e, d/b]" "/") = some (.parse "/e" (.yaml .illFormed)) := by
    decide +kernel
  obtain ⟨_, _, he, hfirst⟩ := (hblame _).1 (fault?_eq_some.1 hload)
  obtain ⟨_, _, he', hfirst'⟩ := (hblame' _).1 (fault?_eq_some.1 hload')
  cases he
  cases he'
  exact ⟨(hio ..).2 ⟨rfl, .unread hf (by decide +kernel)⟩, ⟨tour, htour, hfirst⟩, by decide +kernel,
    hmalformed "[" "/" _ (by decide +kernel), tour', htour', hfirst'⟩

end World

end Rollout
