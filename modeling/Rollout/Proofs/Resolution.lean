import Rollout.Graph.Resolve
import Rollout.Proofs.Fault
import Rollout.Proofs.Keyed

/-! Resolving a document finds its first violation. The violations of a document are listed from the document
alone, in the order in which they count; a document resolves when it has none, and otherwise the error is the
first of them. -/

namespace Rollout

def Decl.Instance.Offers (i : Decl.Instance) (j : Decl.Job) : Prop :=
  ∀ t ∈ j.instanceLabels.parse.tokens, t ∈ i.labels.parse.tokens

instance (i : Decl.Instance) (j : Decl.Job) : Decidable (i.Offers j) :=
  inferInstanceAs (Decidable (∀ t ∈ j.instanceLabels.parse.tokens, t ∈ i.labels.parse.tokens))

theorem LabelSet.satisfies_iff {required offered : LabelSet} :
    required.satisfies offered = true ↔ ∀ t ∈ required.tokens, t ∈ offered.tokens := by
  simp [satisfies, contains]

def PortList.malformed (l : PortList) : List PortError :=
  l.items.flatMap fun
    | .number n => (fault? (Port.ofNumber n)).toList
    | .text s => (PortItem.entries s).filterMap fun entry => fault? (Port.parseEntry entry)

theorem PortList.fault?_parse (l : PortList) : fault? l.parse = l.malformed.head? := by
  unfold parse malformed
  rw [fault?_map, fault?_mapM, List.head?_flatMap]
  congr 1
  funext item
  cases item with
  | number n => simp [PortItem.parse]
  | text s => rw [PortItem.parse, fault?_mapM, List.head?_filterMap]

namespace Document

/-- The error, where the condition fails. -/
def demand (p : Prop) [Decidable p] (e : Error) : List Error := if p then [] else [e]

theorem demand_of_some {α : Type} {m : Keyed α} {key : String} {a : α} (h : m.get? key = some a)
    (e : Error) : demand (key ∈ m.keys) e = [] :=
  if_pos (Keyed.mem_keys.2 ⟨a, h⟩)

theorem demand_of_none {α : Type} {m : Keyed α} {key : String} (h : m.get? key = none) (e : Error) :
    demand (key ∈ m.keys) e = [e] :=
  if_neg (Keyed.get?_eq_none.1 h)

theorem mem_demand {p : Prop} [Decidable p] {e x : Error} : x ∈ demand p e ↔ ¬ p ∧ x = e := by
  unfold demand
  split <;> simp [*]

theorem demand_eq_nil {p : Prop} [Decidable p] {e : Error} : demand p e = [] ↔ p := by
  unfold demand
  split <;> simp [*]

/-- Disks that an instance mounts and the document does not declare, by label and key. -/
def danglingDisks (d : Document) (host : String) (i : Decl.Instance) : List Error :=
  i.volumes.entries.flatMap fun v => v.2.entries.flatMap fun m =>
    demand (m.1 ∈ d.disks.keys) (.reference .disk m.1 (.volume host v.1))

def misplacements (d : Document) (key : String) (j : Decl.Job) : List Error :=
  demand (j.container ∈ d.containers.keys) (.reference .container j.container (.job key))
    ++ demand (d.instances.keys ≠ []) (.placement key .noInstances)
    ++ demand (∃ i ∈ d.instances.values, i.Offers j) (.placement key .noMatch)

/-- What is wrong with the jobs of a service and their ports, by element and key. -/
def misexposures (d : Document) (key : String) (elements : Decl.Service) : List Error :=
  elements.flatMap fun element => element.entries.flatMap fun e =>
    demand (e.1 ∈ d.jobs.keys) (.reference .job e.1 (.service key)) ++ e.2.malformed.map (.ports e.1)

/-- Everything that keeps a document from being resolved: instances, jobs and services by ascending key, and
the deploys in order. -/
def violations (d : Document) : List Error :=
  d.instances.entries.flatMap (fun e => d.danglingDisks e.1 e.2)
    ++ d.jobs.entries.flatMap (fun e => d.misplacements e.1 e.2)
    ++ d.services.entries.flatMap (fun e => d.misexposures e.1 e.2)
    ++ d.deploys.flatMap fun key => demand (key ∈ d.services.keys) (.reference .service key .deploys)

end Document

namespace Resolve

open Document

variable {d : Document}

theorem fault?_host (d : Document) (key : String) (i : Decl.Instance) :
    fault? (host (disks d) key i) = (d.danglingDisks key i).head? := by
  have hkeys : (disks d).keys = d.disks.keys := Keyed.keys_mapWithKey ..
  unfold host danglingDisks
  rw [fault?_bind_pure, fault?_mapM, List.head?_flatMap]
  congr 1
  funext v
  obtain ⟨label, points⟩ := v
  simp only [attach]
  rw [fault?_mapM, List.head?_flatMap]
  congr 1
  funext m
  simp only [← hkeys]
  cases h : (disks d).get? m.1 with
  | none => rw [demand_of_none h]; rfl
  | some disk => rw [demand_of_some h]; rfl

theorem fault?_instances (d : Document) :
    fault? (instances d) = (d.instances.entries.flatMap fun e => d.danglingDisks e.1 e.2).head? := by
  rw [instances, Keyed.fault?_traverse, List.head?_flatMap]
  simp only [fault?_host]

/-- What placing a job reads of the instances is what the document says of them. -/
theorem labels_of_instances {is : Keyed Instance} (h : instances d = .ok is) :
    is.values.map (fun i => i.labelSet) = d.instances.values.map fun i => i.labels.parse := by
  have hall := Keyed.traverse_forall₂ h
  unfold Keyed.values
  generalize d.instances.entries = es, is.entries = rs at hall
  induction hall with
  | nil => rfl
  | @cons e e' es rs hab _ ih =>
    obtain ⟨key, i⟩ := e'
    obtain ⟨mounts, -, hm⟩ := bind_eq_ok.1 hab.2
    cases hm
    simp [ih]

theorem exists_host_iff {is : Keyed Instance} (h : instances d = .ok is) (j : Decl.Job) :
    (is.values.filter fun i => j.instanceLabels.parse.satisfies i.labelSet) = [] ↔
      ¬ ∃ i ∈ d.instances.values, i.Offers j := by
  have hlabels := labels_of_instances h
  rw [List.filter_eq_nil_iff]
  constructor
  · rintro hn ⟨i, hi, ho⟩
    have hm : i.labels.parse ∈ is.values.map fun i => i.labelSet := by
      rw [hlabels]
      exact List.mem_map.2 ⟨i, hi, rfl⟩
    obtain ⟨i', hi', he⟩ := List.mem_map.1 hm
    refine hn i' hi' (LabelSet.satisfies_iff.2 ?_)
    rw [he]
    exact ho
  · intro hn i' hi' hs
    have hm : i'.labelSet ∈ d.instances.values.map fun i => i.labels.parse := by
      rw [← hlabels]
      exact List.mem_map.2 ⟨i', hi', rfl⟩
    obtain ⟨i, hi, he⟩ := List.mem_map.1 hm
    refine hn ⟨i, hi, ?_⟩
    have := LabelSet.satisfies_iff.1 hs
    rw [← he] at this
    exact this

theorem fault?_place {is : Keyed Instance} (h : instances d = .ok is) (key : String) (j : Decl.Job) :
    fault? (place (containers d) is key j) = (d.misplacements key j).head? := by
  have hkeys : (containers d).keys = d.containers.keys := Keyed.keys_mapWithKey ..
  have hempty : is.isEmpty = true ↔ d.instances.keys = [] := by
    rw [Keyed.isEmpty_iff, Keyed.keys_of_traverse h]
  have hhosts := exists_host_iff h j
  unfold place misplacements
  rw [← hkeys]
  cases hc : (containers d).get? j.container with
  | none => rw [demand_of_none hc]; rfl
  | some template =>
    rw [demand_of_some hc, List.nil_append]
    by_cases he : d.instances.keys = []
    · simp only [if_pos (hempty.2 he)]
      rw [demand, if_neg (not_not_intro he)]
      rfl
    · simp only [if_neg fun hn => he (hempty.1 hn)]
      rw [demand, if_pos he, List.nil_append]
      by_cases ho : ∃ i ∈ d.instances.values, i.Offers j
      · -- each host has a copy, so the copies cannot be missing where a host is found
        have hne := fun hn => hhosts.1 hn ho
        rw [if_neg hne, if_neg (List.map_eq_nil_iff.not.2 hne), demand, if_pos ho]
        rfl
      · rw [if_pos (hhosts.2 ho), demand, if_neg ho]
        rfl

theorem fault?_jobs {is : Keyed Instance} (h : instances d = .ok is) :
    fault? (d.jobs.traverse (place (containers d) is)) =
      (d.jobs.entries.flatMap fun e => d.misplacements e.1 e.2).head? := by
  rw [Keyed.fault?_traverse, List.head?_flatMap]
  simp only [fault?_place h]

theorem fault?_service {js : Keyed Job} (hkeys : js.keys = d.jobs.keys) (key : String)
    (elements : Decl.Service) : fault? (service js key elements) = (d.misexposures key elements).head? := by
  unfold service misexposures
  rw [← List.flatMap_assoc, List.head?_flatMap]
  -- adding a job keeps the name of the service, so each step fails as it would alone
  refine fault?_foldlM (fun s => s.name = key) ?_ ?_ _ _ rfl
  · intro s e s' hs hok
    unfold expose at hok
    split at hok
    · cases hok
    split at hok <;> cases hok
    exact hs
  · intro s e hs
    subst hs
    unfold expose
    rw [← hkeys]
    cases hj : js.get? e.1 with
    | none => rw [demand_of_none hj]; rfl
    | some job =>
      rw [demand_of_some hj, List.nil_append, List.head?_map, ← PortList.fault?_parse]
      cases e.2.parse <;> rfl

theorem fault?_services {js : Keyed Job} (hkeys : js.keys = d.jobs.keys) :
    fault? (d.services.traverse (service js)) =
      (d.services.entries.flatMap fun e => d.misexposures e.1 e.2).head? := by
  rw [Keyed.fault?_traverse, List.head?_flatMap]
  simp only [fault?_service hkeys]

theorem fault?_deploys {ss : Keyed Service} (hkeys : ss.keys = d.services.keys) (keys : List String) :
    fault? (deploys ss keys) = (keys.flatMap fun key =>
      demand (key ∈ d.services.keys) (.reference .service key .deploys)).head? := by
  unfold deploys
  rw [fault?_mapM, List.head?_flatMap, ← hkeys]
  congr 1
  funext key
  cases h : ss.get? key with
  | none => rw [demand_of_none h]; rfl
  | some s => rw [demand_of_some h]; rfl

theorem fault?_resolve (d : Document) : fault? (Graph.resolve d) = d.violations.head? := by
  unfold Graph.resolve violations
  rw [List.append_assoc, List.append_assoc, List.head?_append, ← fault?_instances]
  refine fault?_bind _ _ _ fun is his => ?_
  rw [List.head?_append, ← fault?_jobs his]
  refine fault?_bind _ _ _ fun js hjs => ?_
  have hjkeys := Keyed.keys_of_traverse hjs
  rw [List.head?_append, ← fault?_services hjkeys]
  refine fault?_bind _ _ _ fun ss hss => ?_
  rw [← fault?_deploys (Keyed.keys_of_traverse hss)]
  exact fault?_bind_pure _ _

end Resolve

namespace Document

/-- Every reference of a document leads somewhere, every job has a place and every port list can be read. -/
structure Resolvable (d : Document) : Prop where
  disks : ∀ host i, d.instances.get? host = some i → ∀ label points, i.volumes.get? label = some points →
    ∀ key ∈ points.keys, key ∈ d.disks.keys
  containers : ∀ key j, d.jobs.get? key = some j → j.container ∈ d.containers.keys
  places : ∀ key j, d.jobs.get? key = some j → ∃ host i, d.instances.get? host = some i ∧ i.Offers j
  jobs : ∀ key elements, d.services.get? key = some elements → ∀ element ∈ elements,
    ∀ job ports, element.get? job = some ports → job ∈ d.jobs.keys ∧ ∃ ps, ports.parse = .ok ps
  services : ∀ key ∈ d.deploys, key ∈ d.services.keys

theorem danglingDisks_eq_nil {d : Document} {host : String} {i : Decl.Instance} :
    d.danglingDisks host i = [] ↔ ∀ label points, i.volumes.get? label = some points →
      ∀ key ∈ points.keys, key ∈ d.disks.keys := by
  simp only [danglingDisks, List.flatMap_eq_nil_iff, demand_eq_nil, Prod.forall, Keyed.mem_entries,
    Keyed.mem_keys, forall_exists_index]

theorem misplacements_eq_nil {d : Document} {key : String} {j : Decl.Job} :
    d.misplacements key j = [] ↔ j.container ∈ d.containers.keys ∧
      ∃ host i, d.instances.get? host = some i ∧ i.Offers j := by
  simp only [misplacements, List.append_eq_nil_iff, demand_eq_nil]
  constructor
  · rintro ⟨⟨hc, -⟩, i, hi, ho⟩
    obtain ⟨host, hh⟩ := Keyed.mem_values.1 hi
    exact ⟨hc, host, i, hh, ho⟩
  · rintro ⟨hc, host, i, hh, ho⟩
    refine ⟨⟨hc, fun hn => ?_⟩, i, Keyed.mem_values.2 ⟨host, hh⟩, ho⟩
    have := Keyed.mem_keys.2 ⟨i, hh⟩
    rw [hn] at this
    cases this

theorem misexposures_eq_nil {d : Document} {key : String} {elements : Decl.Service} :
    d.misexposures key elements = [] ↔ ∀ element ∈ elements, ∀ job ports,
      element.get? job = some ports → job ∈ d.jobs.keys ∧ ∃ ps, ports.parse = .ok ps := by
  have hparse : ∀ l : PortList, l.malformed = [] ↔ ∃ ps, l.parse = .ok ps := by
    intro l
    rw [← fault?_eq_none, PortList.fault?_parse, List.head?_eq_none_iff]
  simp only [misexposures, List.flatMap_eq_nil_iff, List.append_eq_nil_iff, demand_eq_nil,
    List.map_eq_nil_iff, Prod.forall, Keyed.mem_entries, hparse]

theorem violations_eq_nil {d : Document} : d.violations = [] ↔ d.Resolvable := by
  simp only [violations, List.append_eq_nil_iff, List.flatMap_eq_nil_iff, Prod.forall, Keyed.mem_entries,
    danglingDisks_eq_nil, misplacements_eq_nil, misexposures_eq_nil, demand_eq_nil]
  constructor
  · rintro ⟨⟨⟨hd, hj⟩, hs⟩, hk⟩
    exact ⟨hd, fun k j h => (hj k j h).1, fun k j h => (hj k j h).2, hs, hk⟩
  · rintro ⟨hd, hc, hp, hs, hk⟩
    exact ⟨⟨⟨hd, fun k j h => ⟨hc k j h, hp k j h⟩⟩, hs⟩, hk⟩

theorem noCopies_not_mem (d : Document) (key : String) : .placement key .noCopies ∉ d.violations := by
  simp [violations, danglingDisks, misplacements, misexposures, mem_demand]

/-- A document resolves just when it is resolvable, and otherwise its first violation is the error. That is
never a missing copy of a container, and never a matter of images or artifacts. -/
theorem resolve_first_violation (d : Document) :
    ((∃ g, Graph.resolve d = .ok g) ↔ d.Resolvable) ∧
      (∀ e, Graph.resolve d = .error e ↔ d.violations.head? = some e) ∧
      (∀ key, Graph.resolve d ≠ .error (.placement key .noCopies)) ∧
      ∀ images artifacts e,
        Graph.resolve { d with images := images, artifacts := artifacts } = .error e ↔
          Graph.resolve d = .error e := by
  have herror : ∀ (d : Document) e, Graph.resolve d = .error e ↔ d.violations.head? = some e := by
    intro d e
    rw [← fault?_eq_some, Resolve.fault?_resolve]
  refine ⟨?_, herror d, fun key h => ?_, fun images artifacts e => ?_⟩
  · rw [← fault?_eq_none, Resolve.fault?_resolve, List.head?_eq_none_iff, violations_eq_nil]
  · exact d.noCopies_not_mem key (List.mem_of_mem_head? ((herror d _).1 h))
  · rw [herror, herror]
    rfl

end Document

end Rollout
