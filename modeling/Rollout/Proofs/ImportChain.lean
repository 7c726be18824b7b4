import Rollout.Proofs.ImportCalls
import Rollout.Proofs.ImportGraph

/-! One chain for a whole run. Where each call of the loader is given a chain of its own, a single one can be shared by
all of them: a file is put on it before its imports are folded in and taken off after, whatever has come of them. Every
call then leaves the chain as it has found it, so that the next one finds on it what was there at the start and the
files of the calls in progress. Files at the start that a load never comes to make no difference to it. -/

namespace Rollout.World

open Relation

variable {w : World}

/-! ### Sharing the chain -/

structure Call extends Visit where
  stack : List String

/-- What the calls share: the chain, and a list of the calls so far. -/
structure Trail where
  chain : List Location
  calls : List Call

namespace Trail

def note (t : Trail) (stack : List String) (path : String) : Trail :=
  { t with calls := t.calls ++ [⟨⟨t.chain, path⟩, stack⟩] }

def push (t : Trail) (l : Location) : Trail := { t with chain := t.chain ++ [l] }

def pop (t : Trail) : Trail := { t with chain := t.chain.dropLast }

end Trail

def foldSharing (w : World) (load : String → Trail → Traced (Except Error Document) × Trail) (origin base : String) :
    Document → List String → Trail → Traced (Except Error Document) × Trail
  | doc, [], t => (⟨.ok doc, []⟩, t)
  | doc, raw :: rest, t =>
    let path := Path.join base (w.env.expand raw)
    let imported := load path t
    let lines := resolving origin path :: imported.1.lines
    match imported.1.value with
    | .error e => (⟨.error (e.importedBy origin), lines⟩, imported.2)
    | .ok d =>
      let folded := foldSharing w load origin base (doc.absorb d) rest imported.2
      (folded.1.after (lines ++ doc.mergeLines d), folded.2)

/-- Loads a file below the files that the chain holds. The file is on the chain as long as its imports are loaded, and
no longer, also where one of them fails. -/
def loadSharing (w : World) : Nat → List String → String → Trail → Traced (Except Error Document) × Trail
  | levels, stack, path, t =>
    match w.fetch t.chain path with
    | .error e => (⟨.error e, [loading path]⟩, t.note stack path)
    | .ok (here, doc) =>
      match levels with
      | 0 => (⟨.ok doc, [loading path]⟩, t.note stack path)
      | levels + 1 =>
        let folded := w.foldSharing (w.loadSharing levels (stack ++ [path])) path here.parent.text doc doc.imports
          ((t.note stack path).push here)
        (folded.1.after [loading path], folded.2.pop)

/-! ### The walk on the chain -/

/-- On the chain of the call are the files of the start and then those of `walk`, all different. The latter are the
files of the calls that it is made below: each imports the next, and the last imports what the call asks for. -/
structure Call.Walks (w : World) (start : List Location) (c : Call) (walk : List Location) : Prop where
  chain : c.chain = start ++ walk
  nodup : c.chain.Nodup
  stack : List.Forall₂ (fun path l => w.files.locate w.cwd path = .ok l) c.stack walk
  imports : walk.IsChain w.Imports
  asked : ∀ l, walk.getLast? = some l →
    ∃ doc raw, w.Parses l doc ∧ raw ∈ doc.imports ∧ c.path = Path.join l.parent.text (w.env.expand raw)

theorem Call.walks_start {start : List Location} (h : start.Nodup) (path : String) :
    Call.Walks w start ⟨⟨start, path⟩, []⟩ [] where
  chain := by simp
  nodup := h
  stack := .nil
  imports := .nil
  asked := nofun

theorem Call.Walks.step {start walk : List Location} {c : Call} (h : c.Walks w start walk) {here : Location}
    {doc : Document} (hf : w.fetch c.chain c.path = .ok (here, doc)) {raw : String} (hraw : raw ∈ doc.imports) :
    Call.Walks w start ⟨⟨c.chain ++ [here], Path.join here.parent.text (w.env.expand raw)⟩, c.stack ++ [c.path]⟩
      (walk ++ [here]) := by
  obtain ⟨hh, hn⟩ := fetch_eq_ok.1 hf
  refine ⟨?_, ?_, ?_, ?_, fun l hl => ?_⟩
  · rw [h.chain, List.append_assoc]
  · rw [← List.concat_eq_append]
    exact h.nodup.concat hn
  · exact List.rel_append h.stack (.cons hh.located .nil)
  · refine List.isChain_append.2 ⟨h.imports, .singleton here, fun l hl l' hl' => ?_⟩
    cases hl'
    obtain ⟨d, r, hp, hr, hpath⟩ := h.asked l hl
    refine ⟨d, r, hp, hr, ?_⟩
    rw [target, ← hpath, hh.located]
  · rw [List.getLast?_concat] at hl
    cases hl
    exact ⟨doc, raw, hh.parsed, hraw, rfl⟩

theorem Call.Walks.ample_step {levels : Nat} {start walk : List Location} {c : Call} (h : c.Walks w start walk)
    (hc : w.Ample levels walk) {here : Location} {doc : Document} (hf : w.fetch c.chain c.path = .ok (here, doc)) :
    ∃ n, levels = n + 1 ∧ w.Ample n (walk ++ [here]) := by
  obtain ⟨hh, hn⟩ := fetch_eq_ok.1 hf
  -- what is on the walk is on the chain, where this file is not
  refine hc.step hh.mem_entries fun hm => hn ?_
  rw [h.chain]
  exact List.mem_append_right start hm

/-- The call `c'` is `c` itself or is made below it, and there is a walk on its chain. -/
def Call.Within (w : World) (start : List Location) (c c' : Call) : Prop :=
  (∃ walk, c'.Walks w start walk) ∧ c.stack ++ [c.path] <+: c'.stack ++ [c'.path]

theorem Call.Walks.within {start walk : List Location} {c : Call} (h : c.Walks w start walk) : c.Within w start c :=
  ⟨⟨walk, h⟩, List.prefix_refl _⟩

/-! ### What a run leaves -/

/-- Run on the shared chain, this comes to `r` and leaves the chain as it has found it. The calls that it makes are
those of the loader, and all of them are as `Q` says. -/
def Keeps (w : World) (p : Pending) (r : Traced (Except Error Document))
    (run : Trail → Traced (Except Error Document) × Trail) (Q : Call → Prop) : Prop :=
  ∃ made, (∀ calls, run ⟨p.chain, calls⟩ = (r, ⟨p.chain, calls ++ made⟩)) ∧
    w.Returns p r (made.map Call.toVisit) ∧ ∀ c ∈ made, Q c

theorem foldSharing_keeps (load : String → Traced (Except Error Document))
    (share : String → Trail → Traced (Except Error Document) × Trail) {chain : List Location} {base : String}
    {raws : List String} {Q : String → Call → Prop}
    (hload : ∀ raw ∈ raws, w.Keeps (.file chain (Path.join base (w.env.expand raw)))
      (load (Path.join base (w.env.expand raw))) (share (Path.join base (w.env.expand raw))) (Q raw))
    (origin : String) (doc : Document) :
    w.Keeps (.imports chain origin base doc raws) (w.foldImports load origin base doc raws)
      (w.foldSharing share origin base doc raws) fun c => ∃ raw ∈ raws, Q raw c := by
  induction raws generalizing doc with
  | nil => exact ⟨[], fun calls => by simp [foldSharing, foldImports, Pending.chain], .done, nofun⟩
  | cons raw raws ih =>
    obtain ⟨made, hrun, hreturns, hmade⟩ := hload raw List.mem_cons_self
    rw [foldImports]
    generalize load (Path.join base (w.env.expand raw)) = imported at hrun hreturns ⊢
    obtain ⟨e | d, lines⟩ := imported
    · refine ⟨made, fun calls => ?_, .failed hreturns, fun c hc => ⟨raw, List.mem_cons_self, hmade c hc⟩⟩
      have hshare := hrun calls
      simp only [Pending.chain] at hshare ⊢
      simp only [foldSharing, hshare]
    · obtain ⟨made', hrun', hreturns', hmade'⟩ := ih (fun r hr => hload r (List.mem_cons_of_mem raw hr)) (doc.absorb d)
      refine ⟨made ++ made', fun calls => ?_, ?_, fun c hc => ?_⟩
      · have hshare := hrun calls
        have hshare' := hrun' (calls ++ made)
        simp only [Pending.chain] at hshare hshare' ⊢
        simp only [foldSharing, hshare, hshare', List.append_assoc]
      · rw [List.map_append]
        exact .next hreturns hreturns'
      · rcases List.mem_append.1 hc with hc | hc
        · exact ⟨raw, List.mem_cons_self, hmade c hc⟩
        · obtain ⟨r, hr, hq⟩ := hmade' c hc
          exact ⟨r, List.mem_cons_of_mem raw hr, hq⟩

theorem Call.Walks.keeps_of_fetch_error {levels : Nat} {start walk : List Location} {c : Call}
    (h : c.Walks w start walk) {e : Error} (hf : w.fetch c.chain c.path = .error e) :
    w.Keeps (.file c.chain c.path) (w.loadBelow levels c.chain c.path) (w.loadSharing levels c.stack c.path)
      (c.Within w start) := by
  have hload : w.loadBelow levels c.chain c.path = ⟨.error e, [loading c.path]⟩ := by
    unfold loadBelow
    simp only [hf]
  refine ⟨[c], fun calls => ?_, ?_, fun c' hc' => ?_⟩
  · rw [hload]
    unfold loadSharing
    simp only [Pending.chain, hf]
    rfl
  · rw [hload]
    exact .unfetched hf
  · cases List.mem_singleton.1 hc'
    exact h.within

theorem loadSharing_of_fetch {levels : Nat} {stack : List String} {path : String} {t : Trail} {here : Location}
    {doc : Document} {r : Traced (Except Error Document)} {calls : List Call}
    (hf : w.fetch t.chain path = .ok (here, doc))
    (hfold : w.foldSharing (w.loadSharing levels (stack ++ [path])) path here.parent.text doc doc.imports
      ((t.note stack path).push here) = (r, ⟨t.chain ++ [here], calls⟩)) :
    w.loadSharing (levels + 1) stack path t = (r.after [loading path], ⟨t.chain, calls⟩) := by
  rw [loadSharing]
  -- the file is last on the chain again when its imports are done, so it is the one that is taken off
  simp only [hf, hfold, Trail.pop, List.dropLast_concat]

theorem loadSharing_keeps {levels : Nat} {start walk : List Location} {c : Call} (hc : w.Ample levels walk)
    (h : c.Walks w start walk) :
    w.Keeps (.file c.chain c.path) (w.loadBelow levels c.chain c.path) (w.loadSharing levels c.stack c.path)
      (c.Within w start) := by
  -- for each import the walk is longer by the file that names it, and the levels are one less
  induction levels generalizing walk c with
  | zero =>
    cases hf : w.fetch c.chain c.path with
    | error e => exact h.keeps_of_fetch_error hf
    | ok r =>
      obtain ⟨m, hm, -⟩ := h.ample_step hc hf
      cases hm
  | succ n ih =>
    cases hf : w.fetch c.chain c.path with
    | error e => exact h.keeps_of_fetch_error hf
    | ok r =>
      obtain ⟨here, doc⟩ := r
      obtain ⟨m, hm, hc'⟩ := h.ample_step hc hf
      cases hm
      have hload : w.loadBelow (n + 1) c.chain c.path = (w.foldImports (w.loadBelow n (c.chain ++ [here])) c.path
          here.parent.text doc doc.imports).after [loading c.path] := by
        rw [loadBelow]
        simp only [hf]
      have hfold := foldSharing_keeps (w.loadBelow n (c.chain ++ [here])) (w.loadSharing n (c.stack ++ [c.path]))
        (fun raw hraw => ih hc' (h.step hf hraw)) c.path doc
      obtain ⟨made, hrun, hreturns, hmade⟩ := hfold
      refine ⟨c :: made, fun calls => ?_, ?_, fun c' hc' => ?_⟩
      · rw [hload, List.append_cons calls c made]
        exact loadSharing_of_fetch hf (hrun (calls ++ [c]))
      · rw [hload]
        exact .fetched hf hreturns
      · rcases List.mem_cons.1 hc' with rfl | hc'
        · exact h.within
        · obtain ⟨raw, -, hwalks, hbelow⟩ := hmade c' hc'
          exact ⟨hwalks, (List.prefix_append _ _).trans hbelow⟩

/-! ### Files that a load never comes to -/

def Reaches (w : World) (path : String) (l : Location) : Prop :=
  ∃ root, w.files.locate w.cwd path = .ok root ∧ ReflTransGen w.Imports root l

theorem Reaches.of_import {path raw : String} {here l : Location} {doc : Document} (hh : w.Holds path here doc)
    (hraw : raw ∈ doc.imports) (h : w.Reaches (Path.join here.parent.text (w.env.expand raw)) l) :
    w.Reaches path l := by
  obtain ⟨root, hroot, hl⟩ := h
  exact ⟨here, hh.located, hl.head ⟨doc, raw, hh.parsed, hraw, hroot⟩⟩

theorem foldImports_of_loads {load load' : String → Traced (Except Error Document)} {origin base : String}
    {raws : List String} {doc r : Document}
    (hload : ∀ raw ∈ raws, ∀ d, (load (Path.join base (w.env.expand raw))).value = .ok d →
      (load' (Path.join base (w.env.expand raw))).value = .ok d)
    (h : (w.foldImports load origin base doc raws).value = .ok r) :
    (w.foldImports load' origin base doc raws).value = .ok r := by
  induction raws generalizing doc with
  | nil => exact h
  | cons raw raws ih =>
    cases hd : (load (Path.join base (w.env.expand raw))).value with
    | error e =>
      rw [foldImports_cons_error hd] at h
      cases h
    | ok d =>
      rw [foldImports_cons_ok hd] at h
      rw [foldImports_cons_ok (hload raw List.mem_cons_self d hd)]
      exact ih (fun r hr => hload r (List.mem_cons_of_mem raw hr)) h

theorem exists_fetch_of_loadBelow {levels : Nat} {chain : List Location} {path : String} {doc : Document}
    (h : (w.loadBelow levels chain path).value = .ok doc) : ∃ here root, w.fetch chain path = .ok (here, root) := by
  cases hf : w.fetch chain path with
  | error e =>
    rw [loadBelow_of_fetch_error hf] at h
    cases h
  | ok r => exact ⟨r.1, r.2, rfl⟩

theorem fetch_of_unreached {start start' walk : List Location} {path : String} {here : Location} {root : Document}
    (hstart : ∀ l, w.Reaches path l → l ∉ start') (h : w.fetch (start ++ walk) path = .ok (here, root)) :
    w.fetch (start' ++ walk) path = .ok (here, root) := by
  obtain ⟨hh, hn⟩ := fetch_eq_ok.1 h
  refine fetch_eq_ok.2 ⟨hh, fun hm => ?_⟩
  rcases List.mem_append.1 hm with hm | hm
  · exact hstart here ⟨here, hh.located, .refl⟩ hm
  · exact hn (List.mem_append_right start hm)

/-- What loads below any files loads below files that it never comes to, and to the same document. -/
theorem loadBelow_of_unreached {levels : Nat} {start start' walk : List Location} {path : String} {doc : Document}
    (hstart : ∀ l, w.Reaches path l → l ∉ start') (h : (w.loadBelow levels (start ++ walk) path).value = .ok doc) :
    (w.loadBelow levels (start' ++ walk) path).value = .ok doc := by
  -- the files of `walk` are those that the two loads have come to themselves
  induction levels generalizing walk path doc with
  | zero =>
    obtain ⟨here, root, hf⟩ := exists_fetch_of_loadBelow h
    have hf' := fetch_of_unreached hstart hf
    unfold loadBelow at h ⊢
    simp only [hf] at h
    simp only [hf']
    exact h
  | succ n ih =>
    obtain ⟨here, root, hf⟩ := exists_fetch_of_loadBelow h
    rw [loadBelow_of_fetch hf, List.append_assoc] at h
    rw [loadBelow_of_fetch (fetch_of_unreached hstart hf), List.append_assoc]
    refine foldImports_of_loads (fun raw hraw d hd => ?_) h
    exact ih (fun l hl => hstart l (hl.of_import (fetch_eq_ok.1 hf).1 hraw)) hd

theorem loadBelow_iff_of_unreached {levels : Nat} {start start' : List Location} {path : String}
    (hfree : ∀ l, w.Reaches path l → l ∉ start ∧ l ∉ start') (doc : Document) :
    (w.loadBelow levels start path).value = .ok doc ↔ (w.loadBelow levels start' path).value = .ok doc := by
  rw [← List.append_nil start, ← List.append_nil start']
  exact ⟨loadBelow_of_unreached fun l hl => (hfree l hl).2, loadBelow_of_unreached fun l hl => (hfree l hl).1⟩

/-- On a chain that all calls share, with different files on it at the start, loading a file and folding imports come to
what the loader gives and leave the chain as it was, whether they succeed or fail. At each call there are the files of
the start on the chain and after them those of the calls in progress, each imported by the one before. From two starts
with no file that the load can come to, it succeeds with one document, or fails in both cases. -/
theorem load_keeps_chain (w : World) {start : List Location} (hstart : start.Nodup) :
    (∀ path, w.Keeps (.file start path) (w.loadBelow w.levels start path) (w.loadSharing w.levels [] path) fun c =>
        (∃ walk, c.Walks w start walk) ∧ [path] <+: c.stack ++ [c.path]) ∧
      (∀ origin base doc raws, w.Keeps (.imports start origin base doc raws)
        (w.foldImports (w.loadBelow w.levels start) origin base doc raws)
        (w.foldSharing (w.loadSharing w.levels []) origin base doc raws) fun c =>
          ∃ raw ∈ raws, (∃ walk, c.Walks w start walk) ∧
            [Path.join base (w.env.expand raw)] <+: c.stack ++ [c.path]) ∧
      ∀ start' path, (∀ l, w.Reaches path l → l ∉ start ∧ l ∉ start') →
        (∃ doc, (w.loadBelow w.levels start path).value = .ok doc ∧
          (w.loadBelow w.levels start' path).value = .ok doc) ∨
        ∃ e e', (w.loadBelow w.levels start path).value = .error e ∧
          (w.loadBelow w.levels start' path).value = .error e' := by
  have hload : ∀ path, w.Keeps (.file start path) (w.loadBelow w.levels start path) (w.loadSharing w.levels [] path)
      fun c => (∃ walk, c.Walks w start walk) ∧ [path] <+: c.stack ++ [c.path] := fun path =>
    loadSharing_keeps w.ample_start (Call.walks_start hstart path)
  refine ⟨hload, fun origin base doc raws => ?_, fun start' path hfree => ?_⟩
  · exact foldSharing_keeps _ _ (fun raw _ => hload _) origin doc
  · have hiff : ∀ doc, (w.loadBelow w.levels start path).value = .ok doc ↔
        (w.loadBelow w.levels start' path).value = .ok doc := loadBelow_iff_of_unreached hfree
    cases hv : (w.loadBelow w.levels start path).value with
    | ok doc => exact .inl ⟨doc, rfl, (hiff doc).1 hv⟩
    | error e =>
      cases hv' : (w.loadBelow w.levels start' path).value with
      | error e' => exact .inr ⟨e, e', rfl, rfl⟩
      | ok doc => cases hv.symm.trans ((hiff doc).2 hv')

theorem imports_iff_of_parses {l l' : Location} {doc : Document} (h : w.Parses l doc) :
    w.Imports l l' ↔ ∃ raw ∈ doc.imports, w.target l raw = .ok l' := by
  constructor
  · rintro ⟨doc', raw, hp, hraw, hl⟩
    obtain rfl := h.unique hp
    exact ⟨raw, hraw, hl⟩
  · rintro ⟨raw, hraw, hl⟩
    exact ⟨doc, raw, h, hraw, hl⟩

theorem diamond_unreached {l : Location} (h : diamond.Reaches "/d/b" l) : l ≠ ⟨["a"]⟩ := by
  have hroot : diamond.files.locate diamond.cwd "/d/b" = .ok ⟨["d", "b"]⟩ := by decide +kernel
  have hb : diamond.Parses ⟨["d", "b"]⟩
      { imports := ["../c"], vars := .ofList [("x", "2"), ("z", "2")], deploys := ["t"] } :=
    ⟨_, rfl, by decide +kernel⟩
  have hc : diamond.Parses ⟨["c"]⟩ { vars := .ofList [("x", "3")], deploys := ["u"] } := ⟨_, rfl, by decide +kernel⟩
  have htarget : diamond.target ⟨["d", "b"]⟩ "../c" = .ok ⟨["c"]⟩ := by decide +kernel
  obtain ⟨root, hlocated, hpath⟩ := h
  cases hroot.symm.trans hlocated
  have hmem : l = ⟨["d", "b"]⟩ ∨ l = ⟨["c"]⟩ := by
    induction hpath with
    | refl => exact .inl rfl
    | tail _ hi ih =>
      rcases ih with rfl | rfl
      · obtain ⟨raw, hraw, hl⟩ := (imports_iff_of_parses hb).1 hi
        cases List.mem_singleton.1 hraw
        cases htarget.symm.trans hl
        exact .inr rfl
      · obtain ⟨raw, hraw, -⟩ := (imports_iff_of_parses hc).1 hi
        cases hraw
  rcases hmem with rfl | rfl <;> decide

/-- The lower half of the diamond, loaded below the file that imports it and below nothing; and the ring, in which the
cycle is noticed two files down. -/
theorem load_keeps_chain_diamond_ring :
    (∃ doc, (diamond.loadBelow diamond.levels [⟨["a"]⟩] "/d/b").value = .ok doc ∧
      (diamond.loadBelow diamond.levels [] "/d/b").value = .ok doc) ∧
    ∃ made e, (∀ calls, ring.loadSharing ring.levels [] "/d/a" ⟨[⟨["x"]⟩], calls⟩ =
        (ring.loadBelow ring.levels [⟨["x"]⟩] "/d/a", ⟨[⟨["x"]⟩], calls ++ made⟩)) ∧
      (ring.loadBelow ring.levels [⟨["x"]⟩] "/d/a").value = .error e ∧
      made.map (fun c => (c.stack, c.chain)) = [([], [⟨["x"]⟩]), (["/d/a"], [⟨["x"]⟩, ⟨["d", "a"]⟩]),
        (["/d/a", "/d/../d/./b"], [⟨["x"]⟩, ⟨["d", "a"]⟩, ⟨["d", "b"]⟩])] ∧
      ∀ c ∈ made, ∃ walk, c.Walks ring [⟨["x"]⟩] walk := by
  constructor
  · have hfree : ∀ l, diamond.Reaches "/d/b" l → l ∉ [(⟨["a"]⟩ : Location)] ∧ l ∉ ([] : List Location) :=
      fun l hl => ⟨fun hm => diamond_unreached hl (List.mem_singleton.1 hm), List.not_mem_nil⟩
    obtain ⟨doc, h⟩ | ⟨e, e', h, -⟩ := (load_keeps_chain diamond (List.nodup_singleton _)).2.2 [] "/d/b" hfree
    · exact ⟨doc, h⟩
    · have hok : fault? (diamond.loadBelow diamond.levels [⟨["a"]⟩] "/d/b").value = none := by decide +kernel
      obtain ⟨doc, hdoc⟩ := fault?_eq_none.1 hok
      cases h.symm.trans hdoc
  · obtain ⟨made, hrun, -, hmade⟩ := (load_keeps_chain ring (List.nodup_singleton ⟨["x"]⟩)).1 "/d/a"
    have hrun : ∀ calls, ring.loadSharing ring.levels [] "/d/a" ⟨[⟨["x"]⟩], calls⟩ =
        (ring.loadBelow ring.levels [⟨["x"]⟩] "/d/a", ⟨[⟨["x"]⟩], calls ++ made⟩) := hrun
    have hcalls : (ring.loadSharing ring.levels [] "/d/a" ⟨[⟨["x"]⟩], []⟩).2.calls = made := by
      rw [hrun, List.nil_append]
    have hfault : fault? (ring.loadBelow ring.levels [⟨["x"]⟩] "/d/a").value =
        some (.parse "/d/a" (.cycle [⟨["x"]⟩, ⟨["d", "a"]⟩, ⟨["d", "b"]⟩, ⟨["d", "a"]⟩])) := by decide +kernel
    refine ⟨made, _, hrun, fault?_eq_some.1 hfault, ?_, fun c hc => (hmade c hc).1⟩
    rw [← hcalls]
    decide +kernel

end Rollout.World
