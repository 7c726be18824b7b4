import Rollout.Proofs.Import
import Mathlib.Data.List.Dedup

/-! Loading ends. `Returns` is the loader without its bound on the depth: a derivation is a run that has come to its
end, with all the calls that it made. The loader has one for every tree of files, since it goes down from a file only
with that file on the chain, and no file is on the chain twice. -/

namespace Rollout

def FileEntry.isFile : FileEntry → Bool
  | file _ => true
  | directory | link _ => false

def FileTree.locations (t : FileTree) : List Location :=
  (t.entries.map Prod.fst).dedup.filter fun l => (t.get? l).any FileEntry.isFile

namespace World

variable {w : World}

/-- A call of the loader: the files that are being loaded, and the path that is asked for. -/
structure Visit where
  chain : List Location
  path : String

inductive Asks (w : World) : Visit → Visit → Prop
  | intro {chain : List Location} {path raw : String} {here : Location} {doc : Document}
      (h : w.fetch chain path = .ok (here, doc)) (hraw : raw ∈ doc.imports) :
    Asks w ⟨chain, path⟩ ⟨chain ++ [here], Path.join here.parent.text (w.env.expand raw)⟩

/-- What is left to do: to load a file, or to fold some imports into a document. -/
inductive Pending where
  | file (chain : List Location) (path : String)
  | imports (chain : List Location) (origin base : String) (doc : Document) (raws : List String)

namespace Pending

def chain : Pending → List Location
  | file chain _ => chain
  | imports chain _ _ _ _ => chain

inductive Makes (w : World) : Pending → Visit → Prop
  | file (chain : List Location) (path : String) : Makes w (.file chain path) ⟨chain, path⟩
  | imports {chain : List Location} {origin base : String} {doc : Document} {raws : List String} {raw : String}
      (h : raw ∈ raws) : Makes w (.imports chain origin base doc raws) ⟨chain, Path.join base (w.env.expand raw)⟩

end Pending

/-- What something comes to, and the calls that are made on the way, in order. -/
inductive Returns (w : World) : Pending → Traced (Except Error Document) → List Visit → Prop
  | unfetched {chain : List Location} {path : String} {e : Error} (h : w.fetch chain path = .error e) :
    Returns w (.file chain path) ⟨.error e, [loading path]⟩ [⟨chain, path⟩]
  | fetched {chain : List Location} {path : String} {here : Location} {doc : Document}
      {r : Traced (Except Error Document)} {visits : List Visit} (h : w.fetch chain path = .ok (here, doc))
      (hr : Returns w (.imports (chain ++ [here]) path here.parent.text doc doc.imports) r visits) :
    Returns w (.file chain path) (r.after [loading path]) (⟨chain, path⟩ :: visits)
  | done {chain : List Location} {origin base : String} {doc : Document} :
    Returns w (.imports chain origin base doc []) ⟨.ok doc, []⟩ []
  | failed {chain : List Location} {origin base raw : String} {doc : Document} {raws : List String} {e : Error}
      {lines : List Line} {visits : List Visit}
      (h : Returns w (.file chain (Path.join base (w.env.expand raw))) ⟨.error e, lines⟩ visits) :
    Returns w (.imports chain origin base doc (raw :: raws))
      ⟨.error (e.importedBy origin), resolving origin (Path.join base (w.env.expand raw)) :: lines⟩ visits
  | next {chain : List Location} {origin base raw : String} {doc d : Document} {raws : List String}
      {lines : List Line} {r : Traced (Except Error Document)} {visits visits' : List Visit}
      (h : Returns w (.file chain (Path.join base (w.env.expand raw))) ⟨.ok d, lines⟩ visits)
      (hr : Returns w (.imports chain origin base (doc.absorb d) raws) r visits') :
    Returns w (.imports chain origin base doc (raw :: raws))
      (r.after (resolving origin (Path.join base (w.env.expand raw)) :: lines ++ doc.mergeLines d)) (visits ++ visits')

/-! ### Every run ends, and in one way -/

theorem Returns.unique {p : Pending} {r r' : Traced (Except Error Document)} {visits visits' : List Visit}
    (h : w.Returns p r visits) (h' : w.Returns p r' visits') : r = r' ∧ visits = visits' := by
  induction h generalizing r' visits' with
  | unfetched hf =>
    cases h' with
    | unfetched hf' =>
      cases hf.symm.trans hf'
      exact ⟨rfl, rfl⟩
    | fetched hf' => cases hf.symm.trans hf'
  | fetched hf _ ih =>
    cases h' with
    | unfetched hf' => cases hf.symm.trans hf'
    | fetched hf' hr' =>
      cases hf.symm.trans hf'
      obtain ⟨rfl, rfl⟩ := ih hr'
      exact ⟨rfl, rfl⟩
  | done =>
    cases h'
    exact ⟨rfl, rfl⟩
  | failed _ ih =>
    cases h' with
    | failed h' =>
      obtain ⟨hr, rfl⟩ := ih h'
      cases hr
      exact ⟨rfl, rfl⟩
    | next h' => cases (ih h').1
  | next _ _ ih iht =>
    cases h' with
    | failed h' => cases (ih h').1
    | next h' hr' =>
      obtain ⟨hr, rfl⟩ := ih h'
      cases hr
      obtain ⟨rfl, rfl⟩ := iht hr'
      exact ⟨rfl, rfl⟩

theorem foldImports_returns {load : String → Traced (Except Error Document)} {chain : List Location}
    (hload : ∀ path, ∃ visits, w.Returns (.file chain path) (load path) visits) (origin base : String)
    (doc : Document) (raws : List String) :
    ∃ visits, w.Returns (.imports chain origin base doc raws) (w.foldImports load origin base doc raws) visits := by
  induction raws generalizing doc with
  | nil => exact ⟨[], .done⟩
  | cons raw raws ih =>
    obtain ⟨visits, hfile⟩ := hload (Path.join base (w.env.expand raw))
    rw [foldImports]
    generalize load (Path.join base (w.env.expand raw)) = imported at hfile ⊢
    obtain ⟨e | d, lines⟩ := imported
    · exact ⟨visits, .failed hfile⟩
    · obtain ⟨visits', hrest⟩ := ih (doc.absorb d)
      exact ⟨visits ++ visits', .next hfile hrest⟩

/-- With levels for all files that are not on the chain, the bound is never met. -/
theorem loadBelow_returns {levels : Nat} {chain : List Location} (hc : w.Ample levels chain) (path : String) :
    ∃ visits, w.Returns (.file chain path) (w.loadBelow levels chain path) visits := by
  induction levels generalizing chain path with
  | zero =>
    unfold loadBelow
    cases hf : w.fetch chain path with
    | error e => exact ⟨_, .unfetched hf⟩
    | ok r =>
      -- every file is on the chain, and this one is not
      obtain ⟨hh, hn⟩ := fetch_eq_ok.1 hf
      obtain ⟨n, hlevels, -⟩ := hc.step hh.mem_entries hn
      cases hlevels
  | succ n ih =>
    unfold loadBelow
    cases hf : w.fetch chain path with
    | error e => exact ⟨_, .unfetched hf⟩
    | ok r =>
      obtain ⟨here, doc⟩ := r
      obtain ⟨hh, hn⟩ := fetch_eq_ok.1 hf
      obtain ⟨m, hm, hc'⟩ := hc.step hh.mem_entries hn
      cases hm
      obtain ⟨visits, hr⟩ := foldImports_returns (ih hc') path here.parent.text doc doc.imports
      exact ⟨_, .fetched hf hr⟩

theorem loadText_returns {text : String} {doc : Document} (base : String) (h : Document.ofYaml text = .ok doc) :
    ∃ visits, w.Returns (.imports [] inlineOrigin base doc doc.imports) (w.loadTextTraced text base) visits := by
  simp only [loadTextTraced, h]
  exact foldImports_returns (loadBelow_returns w.ample_start) inlineOrigin base doc doc.imports

/-! ### The calls of a run -/

theorem Asks.descends {u v : Visit} (h : w.Asks u v) :
    ∃ here, v.chain = u.chain ++ [here] ∧ here ∉ u.chain ∧ here ∈ w.files.locations := by
  obtain ⟨hf, -⟩ := h
  obtain ⟨hh, hn⟩ := fetch_eq_ok.1 hf
  obtain ⟨text, hread, -⟩ := hh.parsed
  refine ⟨_, rfl, hn, List.mem_filter.2 ⟨List.mem_dedup.2 hh.mem_entries, ?_⟩⟩
  rw [FileTree.get?_of_read hread]
  rfl

def Visit.left (w : World) (v : Visit) : List Location := w.files.locations.filter fun l => l ∉ v.chain

theorem Asks.length_left_lt {u v : Visit} (h : w.Asks u v) : (v.left w).length < (u.left w).length := by
  obtain ⟨here, hchain, hn, hmem⟩ := h.descends
  have hleft : v.left w = (u.left w).filter fun l => l ≠ here := by
    rw [Visit.left, Visit.left, List.filter_filter, hchain]
    refine List.filter_congr fun l _ => ?_
    simp [not_or, and_comm]
  rw [hleft, List.length_filter_lt_length_iff_exists]
  exact ⟨here, List.mem_filter.2 ⟨hmem, decide_eq_true hn⟩, by simp⟩

theorem wellFounded_asks (w : World) : WellFounded fun v u => w.Asks u v :=
  Subrelation.wf Asks.length_left_lt (measure fun v : Visit => (v.left w).length).wf

structure Visit.Orderly (w : World) (v : Visit) : Prop where
  nodup : v.chain.Nodup
  files : v.chain ⊆ w.files.locations

theorem Visit.Orderly.depth_le {v : Visit} (h : v.Orderly w) : v.chain.length ≤ w.files.locations.length :=
  (h.nodup.subperm h.files).length_le

theorem Asks.orderly {u v : Visit} (h : w.Asks u v) (hu : u.Orderly w) : v.Orderly w := by
  obtain ⟨here, hchain, hn, hmem⟩ := h.descends
  constructor
  · rw [hchain, ← List.concat_eq_append]
    exact hu.nodup.concat hn
  · rw [hchain]
    exact List.append_subset.2 ⟨hu.files, List.cons_subset.2 ⟨hmem, List.nil_subset _⟩⟩

theorem Returns.made {p : Pending} {r : Traced (Except Error Document)} {visits : List Visit}
    (h : w.Returns p r visits) : ∀ v ∈ visits, p.Makes w v ∨ ∃ u ∈ visits, w.Asks u v := by
  induction h with
  | unfetched =>
    intro v hv
    rw [List.mem_singleton.1 hv]
    exact .inl (.file ..)
  | @fetched chain path here doc r visits hf hr ih =>
    intro v hv
    rcases List.mem_cons.1 hv with rfl | hv
    · exact .inl (.file ..)
    · refine .inr ?_
      rcases ih v hv with hmade | ⟨u, hu, hasks⟩
      · cases hmade with
        | imports hraw => exact ⟨_, List.mem_cons_self .., .intro hf hraw⟩
      · exact ⟨u, List.mem_cons_of_mem _ hu, hasks⟩
  | done => nofun
  | failed h ih =>
    intro v hv
    refine (ih v hv).imp_left fun hmade => ?_
    cases hmade
    exact .imports (List.mem_cons_self ..)
  | next h hr ih iht =>
    intro v hv
    rcases List.mem_append.1 hv with hv | hv
    · rcases ih v hv with hmade | ⟨u, hu, hasks⟩
      · cases hmade
        exact .inl (.imports (List.mem_cons_self ..))
      · exact .inr ⟨u, List.mem_append_left _ hu, hasks⟩
    · rcases iht v hv with hmade | ⟨u, hu, hasks⟩
      · cases hmade with
        | imports hraw => exact .inl (.imports (List.mem_cons_of_mem _ hraw))
      · exact .inr ⟨u, List.mem_append_right _ hu, hasks⟩

theorem Pending.Makes.chain_eq {p : Pending} {v : Visit} (h : p.Makes w v) : v.chain = p.chain := by
  cases h <;> rfl

/-- Each call was made at the start, with nothing on the chain, or by going down from another one. -/
theorem Returns.orderly {p : Pending} {r : Traced (Except Error Document)} {visits : List Visit}
    (h : w.Returns p r visits) (hp : p.chain = []) : ∀ v ∈ visits, v.Orderly w := by
  intro v hv
  -- on the depth, since the call that went down to this one has one file less on its chain
  induction hn : v.chain.length generalizing v with
  | zero =>
    rw [List.length_eq_zero_iff] at hn
    exact ⟨hn ▸ List.nodup_nil, hn ▸ List.nil_subset _⟩
  | succ n ih =>
    rcases h.made v hv with hmade | ⟨u, hu, hasks⟩
    · rw [hmade.chain_eq, hp] at hn
      cases hn
    · obtain ⟨here, hchain, -⟩ := hasks.descends
      rw [hchain, List.length_append] at hn
      exact hasks.orderly (ih u hu (Nat.succ.inj hn))

/-- For every tree of files and every environment: loading a file, and loading a text, comes to its end after the calls
of one run, and what it comes to is what the loader gives. No sequence of descents goes on for ever: all files on the
chain of a call are different, and each was put there by a call that went down to the next, so that no call lies deeper
than there are files. -/
theorem load_returns (w : World) :
    (∀ path, ∃ visits, w.Returns (.file [] path) (w.loadTraced path) visits) ∧
      (∀ text base, (∃ e, Document.ofYaml text = .error e ∧
          w.loadTextTraced text base = ⟨.error (.parse inlineOrigin (.yaml e)), []⟩) ∨
        ∃ doc visits, Document.ofYaml text = .ok doc ∧
          w.Returns (.imports [] inlineOrigin base doc doc.imports) (w.loadTextTraced text base) visits) ∧
      (∀ p r r' visits visits', w.Returns p r visits → w.Returns p r' visits' → r = r' ∧ visits = visits') ∧
      (WellFounded fun v u => w.Asks u v) ∧
      ∀ p r visits, p.chain = [] → w.Returns p r visits → ∀ v ∈ visits,
        v.chain.Nodup ∧ v.chain ⊆ w.files.locations ∧ v.chain.length ≤ w.files.locations.length ∧
          (v.chain = [] ∨ ∃ u ∈ visits, w.Asks u v ∧
            ∃ here ∈ w.files.locations, here ∉ u.chain ∧ v.chain = u.chain ++ [here]) := by
  refine ⟨loadBelow_returns w.ample_start, fun text base => ?_, fun _ _ _ _ _ => Returns.unique, w.wellFounded_asks, ?_⟩
  · cases h : Document.ofYaml text with
    | error e =>
      refine .inl ⟨e, rfl, ?_⟩
      simp only [loadTextTraced, h]
    | ok doc =>
      obtain ⟨visits, hr⟩ := loadText_returns base h
      exact .inr ⟨doc, visits, rfl, hr⟩
  · intro p r visits hp h v hv
    have horderly := h.orderly hp v hv
    refine ⟨horderly.nodup, horderly.files, horderly.depth_le, ?_⟩
    rcases h.made v hv with hmade | ⟨u, hu, hasks⟩
    · exact .inl (hmade.chain_eq.trans hp)
    · obtain ⟨here, hchain, hn, hmem⟩ := hasks.descends
      exact .inr ⟨u, hu, hasks, here, hmem, hn, hchain⟩

end World

end Rollout
