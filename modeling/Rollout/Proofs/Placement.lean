import Rollout.Proofs.Coherence
import Rollout.Proofs.Resolution

/-! Where jobs are placed. A job is on every instance that offers its labels and on no other, on each once and in the
order of their names, with a copy of its container for each. Only the copies know their instance. -/

namespace Rollout

theorem Keyed.map_name_values {α : Type} {name : α → String} {m : Keyed α}
    (hname : ∀ key a, m.get? key = some a → name a = key) : m.values.map name = m.keys := by
  unfold values keys
  rw [List.map_map]
  refine List.map_congr_left fun e he => ?_
  exact hname e.1 e.2 (mem_entries.1 he)

/-- The job is where the document offers its labels, with a copy of its container for each instance. -/
structure Job.Placed (d : Document) (g : Graph) (decl : Decl.Job) (j : Job) : Prop where
  somewhere : j.instances ≠ []
  ascending : (j.instances.map Instance.name).Pairwise (· < ·)
  /-- The instances are those of the graph. -/
  holds : Keyed.Holds Instance.name g.instances j.instances
  mem : ∀ host, host ∈ j.instances.map Instance.name ↔ ∃ i, d.instances.get? host = some i ∧ i.Offers decl
  template : j.template = g.containers.get? decl.container
  declared : j.template ≠ none
  /-- The template stands for no instance. -/
  unplaced : ∀ c ∈ j.template, c.targetInstance = none
  length : j.copies.length = j.instances.length
  copy : ∀ c ∈ j.template, ∀ (k : Nat) (i : Instance), j.instances[k]? = some i →
    j.copies[k]? = some { c with targetInstance := some i.name }

namespace Resolve

variable {d : Document} {instances : Keyed Instance} {key : String}

theorem targetInstance_containers {c : Container} (h : (Resolve.containers d).get? key = some c) :
    c.targetInstance = none := by
  unfold Resolve.containers at h
  rw [Keyed.get?_mapWithKey] at h
  obtain ⟨decl, -, rfl⟩ := Option.map_eq_some_iff.1 h
  rfl

theorem satisfies_iff_offers (h : Resolve.instances d = .ok instances) {i : Instance}
    (hi : instances.get? key = some i) (decl : Decl.Job) :
    decl.instanceLabels.parse.satisfies i.labelSet = true ↔
      ∃ x, d.instances.get? key = some x ∧ x.Offers decl := by
  obtain ⟨x, hx, hhost⟩ := (Keyed.get?_of_traverse h key i).1 hi
  obtain ⟨-, -, hlabels, -⟩ := host_eq_ok hhost
  rw [LabelSet.satisfies_iff, hlabels]
  constructor
  · exact fun ho => ⟨x, hx, ho⟩
  · rintro ⟨x', hx', ho⟩
    obtain rfl : x = x' := Option.some.inj (hx.symm.trans hx')
    exact ho

theorem mem_hosts (h : Resolve.instances d = .ok instances)
    (hname : ∀ key i, instances.get? key = some i → i.name = key) (decl : Decl.Job) (host : String) :
    (host ∈ (instances.values.filter fun i => decl.instanceLabels.parse.satisfies i.labelSet).map Instance.name) ↔
      ∃ x, d.instances.get? host = some x ∧ x.Offers decl := by
  constructor
  · intro hm
    obtain ⟨i, hi, rfl⟩ := List.mem_map.1 hm
    obtain ⟨hi, hs⟩ := List.mem_filter.1 hi
    obtain ⟨key, hk⟩ := Keyed.mem_values.1 hi
    rw [hname key i hk]
    exact (satisfies_iff_offers h hk decl).1 hs
  · rintro ⟨x, hx, ho⟩
    have hkey : host ∈ instances.keys := by
      rw [Keyed.keys_of_traverse h]
      exact Keyed.mem_keys.2 ⟨x, hx⟩
    obtain ⟨i, hi⟩ := Keyed.mem_keys.1 hkey
    refine List.mem_map.2 ⟨i, List.mem_filter.2 ⟨Keyed.mem_values.2 ⟨host, hi⟩, ?_⟩, hname host i hi⟩
    exact (satisfies_iff_offers h hi decl).2 ⟨x, hx, ho⟩

theorem hosts_ascending (hname : ∀ key i, instances.get? key = some i → i.name = key) (p : Instance → Bool) :
    ((instances.values.filter p).map Instance.name).Pairwise (· < ·) := by
  have hsub : ((instances.values.filter p).map Instance.name).Sublist instances.keys := by
    rw [← Keyed.map_name_values hname]
    exact List.filter_sublist.map Instance.name
  exact instances.ascending.sublist hsub

end Resolve

namespace Graph

/-- Every job is placed exactly where its labels are offered, and only its copies of the container are set to an
instance. -/
theorem resolve_places {d : Document} {g : Graph} (h : resolve d = .ok g) :
    Keyed.Related (fun _ decl j => j.Placed d g decl) d.jobs g.jobs ∧
      ∀ key c, g.containers.get? key = some c → c.targetInstance = none := by
  have hcoherent := coherent_resolve h
  have hname : ∀ key i, g.instances.get? key = some i → i.name = key :=
    hcoherent.instances.named fun _ _ _ hi => hi.name
  obtain ⟨instances, hi, h⟩ := bind_eq_ok.1 h
  obtain ⟨jobs, hj, h⟩ := bind_eq_ok.1 h
  obtain ⟨services, -, h⟩ := bind_eq_ok.1 h
  obtain ⟨deploys, -, h⟩ := bind_eq_ok.1 h
  cases h
  refine ⟨.of_traverse hj fun key decl j hplace => ?_, fun key c => Resolve.targetInstance_containers⟩
  have hjob := Resolve.coherent_place hname hplace
  obtain ⟨-, -, hhosts, hne, c, hc, htemplate, hcopies⟩ := Resolve.place_eq_ok hplace
  exact {
    somewhere := hne
    ascending := hhosts ▸ Resolve.hosts_ascending hname _
    holds := hjob.holds
    mem := fun host => hhosts ▸ Resolve.mem_hosts hi hname decl host
    template := htemplate.trans hc.symm
    declared := by simp [htemplate]
    unplaced := by
      intro c' hc'
      obtain rfl := Option.some.inj (htemplate.symm.trans hc')
      exact Resolve.targetInstance_containers hc
    length := by rw [hcopies, List.length_map]
    copy := by
      intro c' hc' k i hk
      obtain rfl := Option.some.inj (htemplate.symm.trans hc')
      rw [hcopies, List.getElem?_map, hk, Option.map_some] }

/-- Three instances and two jobs, with labels in both spellings. -/
def fleet : Document where
  containers := .ofList [("proxy", { command := some "serve" })]
  instances := .ofList
    [("oslo", { labels := .inline "eu,web" }), ("bonn", { labels := .list [" web ", "db", "eu"] }),
      ("lima", { labels := .inline "web\tus" })]
  jobs := .ofList
    [("any", { container := "proxy" }),
      ("front", { container := "proxy", instanceLabels := .inline " web , eu,web" })]

theorem resolve_places_fleet :
    ∃ g j, resolve fleet = .ok g ∧ g.jobs.get? "front" = some j ∧
      j.instances.map Instance.name = ["bonn", "oslo"] ∧
      j.Placed fleet g { container := "proxy", instanceLabels := .inline " web , eu,web" } := by
  have hf : ((resolve fleet).toOption.map fun g =>
      (g.jobs.get? "front").map fun j => j.instances.map Instance.name) = some (some ["bonn", "oslo"]) := by
    decide +kernel
  obtain ⟨g, hg, hf⟩ := exists_of_map_toOption hf
  obtain ⟨j, hj, hnames⟩ := Option.map_eq_some_iff.1 hf
  obtain ⟨decl, hdecl, hplaced⟩ := (resolve_places hg).1.2 "front" j hj
  have hfront : fleet.jobs.get? "front" =
      some { container := "proxy", instanceLabels := .inline " web , eu,web" } := by decide +kernel
  obtain rfl := Option.some.inj (hfront.symm.trans hdecl)
  exact ⟨g, j, hg, hj, hnames, hplaced⟩

end Graph

end Rollout
