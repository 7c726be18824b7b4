import Rollout.Proofs.ImportText
import Mathlib.Data.List.GetD

/-! Import cycles that are reported are there. The files that an error names are a walk along imports from the first
file of the load, whatever was loaded before on other branches: they are all different but for the last, which closes
the cycle. -/

namespace Rollout.World

open Relation

variable {w : World}

/-- Files `c 0` to `c n`, each of which imports the next. They are all different but for the last, which is one of
the others. -/
structure Circles (w : World) (n : Nat) (c : Nat → Location) : Prop where
  imports : ∀ i < n, w.Imports (c i) (c (i + 1))
  distinct : ∀ i < n, ∀ j < n, c i = c j → i = j
  closes : ∃! j, j < n ∧ c j = c n
  cycle : ∀ j < n, c j = c n → TransGen w.Imports (c j) (c j)

theorem Recurs.circles {walk : List Location} (h : w.Recurs walk) :
    ∃ n c, walk = (List.range (n + 1)).map c ∧ w.Circles n c := by
  obtain ⟨l, hmem, hlast⟩ := h.again
  obtain ⟨files, rfl⟩ : ∃ files, walk = files ++ [l] :=
    ⟨walk.dropLast, (List.dropLast_append_getLast? l hlast).symm⟩
  have hnodup := h.nodup
  rw [List.dropLast_concat] at hmem hnodup
  have hget : ∀ i (hi : i < (files ++ [l]).length), (files ++ [l])[i] = files.getD i l := by
    intro i hi
    rw [List.getElem_append]
    split
    · rw [List.getD_eq_getElem]
    · rename_i hge
      rw [List.getD_eq_default _ _ (Nat.le_of_not_lt hge), List.getElem_singleton]
  have hn : files.getD files.length l = l := List.getD_eq_default _ _ (Nat.le_refl _)
  have hdistinct : ∀ i < files.length, ∀ j < files.length, files.getD i l = files.getD j l → i = j := by
    intro i hi j hj he
    rw [List.getD_eq_getElem _ _ hi, List.getD_eq_getElem _ _ hj] at he
    exact hnodup.getElem_inj_iff.1 he
  refine ⟨files.length, fun i => files.getD i l, ?_, fun i hi => ?_, hdistinct, ?_, fun j _ he => ?_⟩
  · refine List.ext_getElem (by simp) fun i hi _ => ?_
    rw [hget i hi, List.getElem_map, List.getElem_range]
  · have hi' : i + 1 < (files ++ [l]).length := by simpa using hi
    rw [← hget i (Nat.lt_of_succ_lt hi'), ← hget (i + 1) hi']
    exact List.isChain_iff_getElem.1 h.chained i hi'
  · obtain ⟨j, hj, he⟩ := List.getElem_of_mem hmem
    have hj' : files.getD j l = files.getD files.length l := by
      rw [List.getD_eq_getElem _ _ hj, he, hn]
    exact ⟨j, ⟨hj, hj'⟩, fun i hi => hdistinct i hi.1 j hj (hi.2.trans hj'.symm)⟩
  · rw [he, hn]
    exact transGen_of_isChain h.chained hmem

theorem circles_of_loadBelow {levels : Nat} {walk : List Location} {path origin : String}
    (h : (w.loadBelow levels [] path).value = .error (.parse origin (.cycle walk))) :
    ∃ n c, walk = (List.range (n + 1)).map c ∧ w.files.locate w.cwd path = .ok (c 0) ∧ w.Circles n c := by
  obtain ⟨here, hl⟩ := exists_locate_of_cycle h
  obtain ⟨hrecurs, rest, hwalk⟩ := recurs_of_loadBelow List.nodup_nil hl (.singleton here) h
  obtain ⟨n, c, hc, hcircles⟩ := hrecurs.circles
  refine ⟨n, c, hc, ?_, hcircles⟩
  have hfirst : here = c 0 := by
    rw [hwalk, List.nil_append, List.range_succ_eq_map, List.map_cons] at hc
    exact (List.cons.inj hc).1
  rw [hl, hfirst]

/-- A load fails with an import cycle only where there is one: the files that it names import one another, from the
file that was asked for, or from an import of the text, to the one that closes the cycle. -/
theorem load_cycle_genuine (w : World) :
    (∀ path origin walk, w.load path = .error (.parse origin (.cycle walk)) →
        ∃ n c, walk = (List.range (n + 1)).map c ∧ w.files.locate w.cwd path = .ok (c 0) ∧ w.Circles n c) ∧
      (∀ text base origin walk, w.loadText text base = .error (.parse origin (.cycle walk)) →
        ∃ n c doc raw, walk = (List.range (n + 1)).map c ∧ Document.ofYaml text = .ok doc ∧ raw ∈ doc.imports ∧
          w.files.locate w.cwd (Path.join base (w.env.expand raw)) = .ok (c 0) ∧ w.Circles n c) ∧
      ∀ walk, (ParseCause.cycle walk).message =
        "import cycle: " ++ " -> ".intercalate (walk.map Location.text) := by
  refine ⟨fun path origin walk h => circles_of_loadBelow h, fun text base origin walk h => ?_, fun _ => rfl⟩
  cases hp : Document.ofYaml text with
  | error e =>
    rw [loadText_of_malformed hp] at h
    cases h
  | ok doc =>
    rw [loadText_of_ofYaml hp] at h
    obtain ⟨before, raw, after, e, himports, -, he, hcycle⟩ := foldImports_eq_error h
    rw [importedBy_eq_cycle hcycle.symm] at he
    obtain ⟨n, c, hwalk, hl, hcircles⟩ := circles_of_loadBelow he
    exact ⟨n, c, doc, raw, hwalk, rfl, by simp [himports], hl, hcircles⟩

theorem load_cycle_genuine_ring :
    (∃ n c, (List.range (n + 1)).map c = [⟨["d", "a"]⟩, ⟨["d", "b"]⟩, ⟨["d", "a"]⟩] ∧
      ring.files.locate ring.cwd "d/../d/a" = .ok (c 0) ∧ ring.Circles n c) ∧
    (∃ n c raw, (List.range (n + 1)).map c = [⟨["d", "b"]⟩, ⟨["d", "a"]⟩, ⟨["d", "b"]⟩] ∧
      ring.files.locate ring.cwd (Path.join "/d" (ring.env.expand raw)) = .ok (c 0) ∧ ring.Circles n c) ∧
    (ParseCause.cycle [⟨["d", "a"]⟩, ⟨["d", "b"]⟩, ⟨["d", "a"]⟩]).message = "import cycle: /d/a -> /d/b -> /d/a" := by
  obtain ⟨hfile, htext, -⟩ := load_cycle_genuine ring
  have hload : fault? (ring.load "d/../d/a") =
      some (.parse "/d/a" (.cycle [⟨["d", "a"]⟩, ⟨["d", "b"]⟩, ⟨["d", "a"]⟩])) := by decide +kernel
  have hload' : fault? (ring.loadText "imports: [../$D/./b]" "/d") =
      some (.parse "/d/../d/./b" (.cycle [⟨["d", "b"]⟩, ⟨["d", "a"]⟩, ⟨["d", "b"]⟩])) := by decide +kernel
  obtain ⟨n, c, hwalk, hl, hcircles⟩ := hfile _ _ _ (fault?_eq_some.1 hload)
  obtain ⟨m, b, _, raw, hwalk', -, -, hl', hcircles'⟩ := htext _ _ _ _ (fault?_eq_some.1 hload')
  exact ⟨⟨n, c, hwalk.symm, hl, hcircles⟩, ⟨m, b, raw, hwalk'.symm, hl', hcircles'⟩, by decide +kernel⟩

end Rollout.World
