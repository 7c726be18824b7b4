import Rollout.Proofs.Coherence
import Rollout.Proofs.Plan
import Rollout.Proofs.Resolution

/-! Which entries of a document become tasks. The highest section that has any entry is planned, and nothing else; which
one that is can be told from the document, since resolving neither adds nor drops an entry. There is one task for each
entry, in order, and its target is what the graph has for the key of the entry. -/

namespace Rollout

inductive Item where
  /-- A service that is to be deployed. -/
  | deploy (key : String)
  | job (key : String)
  | container (key : String)
  | instance (key : String)
  | image (key : String)
  | disk (key : String)
  | artifact (key : String)
deriving DecidableEq

/-- Entries of one section by ascending key, and disks before artifacts. -/
def Item.Before : Item → Item → Prop
  | job a, job b | container a, container b | .instance a, .instance b | image a, image b | disk a, disk b
  | artifact a, artifact b => a < b
  | disk _, artifact _ => True
  | _, _ => False

namespace Document

/-- The highest section of the document that is not empty. -/
def tier (d : Document) : Tier :=
  if d.deploys ≠ [] then .deploys
  else if d.jobs.keys ≠ [] then .jobs
  else if d.containers.keys ≠ [] then .containers
  else if d.instances.keys ≠ [] then .instances
  else if d.images.keys ≠ [] then .images
  else if d.disks.keys ≠ [] ∨ d.artifacts.keys ≠ [] then .disksAndArtifacts
  else .empty

/-- The entries of a tier: the deploys as they are declared, all else by ascending key. -/
def items (d : Document) : Tier → List Item
  | .deploys => d.deploys.map .deploy
  | .jobs => d.jobs.keys.map .job
  | .containers => d.containers.keys.map .container
  | .instances => d.instances.keys.map .instance
  | .images => d.images.keys.map .image
  | .disksAndArtifacts => d.disks.keys.map .disk ++ d.artifacts.keys.map .artifact
  | .empty => []

theorem tier_eq_find? (d : Document) : d.tier = (Tier.all.find? fun t => !(d.items t).isEmpty).getD .empty := by
  unfold tier
  split_ifs with hdeploys hjobs hcontainers hinstances himages hlast
  · simp [Tier.all, items, hdeploys]
  · simp_all [Tier.all, items]
  · simp_all [Tier.all, items]
  · simp_all [Tier.all, items]
  · simp_all [Tier.all, items]
  · -- either of the two sections will do
    rcases hlast with hlast | hlast <;> simp_all [Tier.all, items]
  · simp_all [Tier.all, items]

theorem items_tier_eq_nil {d : Document} : d.items d.tier = [] ↔ d.tier = .empty := by
  constructor
  · intro h
    have hfind := d.tier_eq_find?
    cases hf : Tier.all.find? fun t => !(d.items t).isEmpty with
    | none => rw [hfind, hf, Option.getD_none]
    | some t =>
      rw [hf, Option.getD_some] at hfind
      have ht := List.find?_some hf
      simp [← hfind, h] at ht
  · intro h
    rw [h, items]

theorem tier_of_job {d : Document} (hjobs : d.jobs.keys ≠ []) : d.tier = .deploys ∨ d.tier = .jobs := by
  unfold tier
  by_cases hdeploys : d.deploys = [] <;> simp [hdeploys, hjobs]

theorem pairwise_items {d : Document} {t : Tier} (h : t ≠ .deploys) : (d.items t).Pairwise Item.Before := by
  have hkeys : ∀ {α : Type} (m : Keyed α) {item : String → Item}, (∀ a b, a < b → (item a).Before (item b)) →
      (m.keys.map item).Pairwise Item.Before := fun m item hitem =>
    List.pairwise_map.2 (m.ascending.imp fun {a b} hlt => hitem a b hlt)
  cases t with
  | deploys => exact absurd rfl h
  | disksAndArtifacts =>
    refine List.pairwise_append.2 ⟨hkeys d.disks fun _ _ hlt => hlt, hkeys d.artifacts fun _ _ hlt => hlt, ?_⟩
    intro x hx y hy
    obtain ⟨disk, -, rfl⟩ := List.mem_map.1 hx
    obtain ⟨artifact, -, rfl⟩ := List.mem_map.1 hy
    trivial
  | empty => exact .nil
  | jobs => exact hkeys d.jobs fun _ _ hlt => hlt
  | containers => exact hkeys d.containers fun _ _ hlt => hlt
  | instances => exact hkeys d.instances fun _ _ hlt => hlt
  | images => exact hkeys d.images fun _ _ hlt => hlt

end Document

def Graph.target? (g : Graph) : Item → Option Target
  | .deploy key => (g.services.get? key).map .deploy
  | .job key => (g.jobs.get? key).map .job
  | .container key => (g.containers.get? key).map .container
  | .instance key => (g.instances.get? key).map .instance
  | .image key => (g.images.get? key).map .image
  | .disk key => (g.disks.get? key).map .disk
  | .artifact key => (g.artifacts.get? key).map .artifact

theorem Keyed.map_values_eq {α β : Type} (m : Keyed α) (f : α → β) :
    (m.values.map f).map some = m.keys.map fun key => (m.get? key).map f := by
  unfold values keys
  rw [List.map_map, List.map_map, List.map_map]
  refine List.map_congr_left fun e he => ?_
  simp [mem_entries.1 he]

namespace Graph

variable {d : Document} {g : Graph}

/-- The entities of a tier are those of the entries that the document has in it. -/
theorem Coherent.targets (h : g.Coherent d) (t : Tier) : (t.targets g).map some = (d.items t).map g.target? := by
  have hkeyed : ∀ {α β : Type} {R : String → α → β → Prop} {decls : Keyed α} {m : Keyed β}, Keyed.Related R decls m →
      ∀ (target : β → Target) (item : String → Item), (∀ key, g.target? (item key) = (m.get? key).map target) →
        (m.values.map target).map some = (decls.keys.map item).map g.target? := by
    intro α β R decls m hm target item hitem
    rw [Keyed.map_values_eq, hm.1, List.map_map]
    exact List.map_congr_left fun key _ => (hitem key).symm
  cases t with
  | deploys =>
    have hdeploys := congrArg (List.map (Option.map Target.deploy)) h.deploys
    simpa [Tier.targets, Document.items, target?, Function.comp_def] using hdeploys
  | jobs => exact hkeyed h.jobs .job .job fun _ => rfl
  | containers => exact hkeyed h.containers .container .container fun _ => rfl
  | instances => exact hkeyed h.instances .instance .instance fun _ => rfl
  | images => exact hkeyed h.images .image .image fun _ => rfl
  | disksAndArtifacts =>
    rw [Tier.targets, Document.items, List.map_append, List.map_append, hkeyed h.disks .disk .disk fun _ => rfl,
      hkeyed h.artifacts .artifact .artifact fun _ => rfl]
  | empty => rfl

theorem Coherent.isEmpty_tasks (h : g.Coherent d) (t : Tier) : (t.tasks g).isEmpty = (d.items t).isEmpty := by
  have hlength := congrArg List.length (h.targets t)
  rw [← Tier.map_target_tasks] at hlength
  simp only [List.length_map] at hlength
  rw [Bool.eq_iff_iff, List.isEmpty_iff_length_eq_zero, List.isEmpty_iff_length_eq_zero, hlength]

theorem Coherent.tier (h : g.Coherent d) : (Plan.ofGraph g).tier = d.tier := by
  rw [d.tier_eq_find?]
  simp only [Plan.ofGraph, h.isEmpty_tasks]

theorem Coherent.tasks (h : g.Coherent d) :
    List.Forall₂ (fun item t => g.target? item = some t.target) (d.items d.tier) (Plan.ofGraph g).tasks := by
  have htargets := h.targets (Plan.ofGraph g).tier
  rw [← Tier.map_target_tasks, List.map_map, h.tier] at htargets
  have hall : List.Forall₂ Eq ((d.items d.tier).map g.target?) ((Plan.ofGraph g).tasks.map (some ∘ Task.target)) := by
    rw [List.forall₂_eq_eq_eq, ← htargets, ← h.tier]
    rfl
  rwa [List.forall₂_map_left_iff, List.forall₂_map_right_iff] at hall

theorem sections_of_job (h : resolve d = .ok g) (hjobs : d.jobs.keys ≠ []) :
    d.containers.keys ≠ [] ∧ d.instances.keys ≠ [] := by
  have hnone : fault? (resolve d) = none := fault?_eq_none.2 ⟨g, h⟩
  rw [Resolve.fault?_resolve, List.head?_eq_none_iff, Document.violations_eq_nil] at hnone
  obtain ⟨key, hkey⟩ := List.exists_mem_of_ne_nil _ hjobs
  obtain ⟨j, hj⟩ := Keyed.mem_keys.1 hkey
  obtain ⟨host, i, hi, -⟩ := hnone.places key j hj
  exact ⟨List.ne_nil_of_mem (hnone.containers key j hj), List.ne_nil_of_mem (Keyed.mem_keys.2 ⟨i, hi⟩)⟩

/-- The plan of a document that resolves is made of its highest section that has any entry, judged on the document, with
one task for each entry of that section, in order: its target is the entity of the graph for that entry. The plan has no
task just when there is no such section, as in a document of services and variables. Where there is a job, deploys or
jobs are planned, and there are containers and instances. -/
theorem resolve_cascades (h : resolve d = .ok g) :
    let p := Plan.ofGraph g
    p.tier = d.tier ∧
      List.Forall₂ (fun item t => g.target? item = some t.target) (d.items d.tier) p.tasks ∧
      (d.tier ≠ .deploys → (d.items d.tier).Pairwise Item.Before) ∧
      (p.isEmpty = true ↔ p.tier = .empty) ∧
      (d = { imports := d.imports, vars := d.vars, services := d.services, overrides := d.overrides } →
        p = ⟨.empty, []⟩) ∧
      (d.jobs.keys ≠ [] →
        (p.tier = .deploys ∨ p.tier = .jobs) ∧ d.containers.keys ≠ [] ∧ d.instances.keys ≠ []) := by
  intro p
  have hcoherent := coherent_resolve h
  have htier : p.tier = d.tier := hcoherent.tier
  have htasks : List.Forall₂ _ (d.items d.tier) p.tasks := hcoherent.tasks
  have hempty : p.isEmpty = true ↔ p.tier = .empty := by
    rw [htier, ← Document.items_tier_eq_nil, Plan.isEmpty, List.isEmpty_iff, ← List.length_eq_zero_iff,
      ← List.length_eq_zero_iff, htasks.length_eq]
  refine ⟨htier, htasks, Document.pairwise_items, hempty, fun hd => ?_, fun hjobs => ?_⟩
  · have hnone : p.tier = .empty := by
      rw [htier, hd]
      rfl
    have hnil : p.tasks = [] := List.isEmpty_iff.1 (hempty.2 hnone)
    calc p = ⟨p.tier, p.tasks⟩ := rfl
      _ = ⟨.empty, []⟩ := by rw [hnone, hnil]
  · rw [htier]
    exact ⟨Document.tier_of_job hjobs, sections_of_job h hjobs⟩

/-- One service is deployed twice, with a job on one instance; two disks and an artifact are not planned. -/
def harbour : Document where
  deploys := ["web", "db", "web"]
  services := .ofList [("web", [.ofList [("front", .empty)]]), ("db", [])]
  artifacts := .ofList [("site", {})]
  containers := .ofList [("proxy", {})]
  disks := .ofList [("logs", {}), ("data", {})]
  instances := .ofList [("a", {})]
  jobs := .ofList [("front", { container := "proxy" })]

def shore : Document := { harbour with deploys := [], services := ∅, containers := ∅, instances := ∅, jobs := ∅ }

theorem resolve_cascades_harbour :
    (∃ g, resolve harbour = .ok g ∧ (Plan.ofGraph g).tier = .deploys ∧
      List.Forall₂ (fun item t => g.target? item = some t.target) [.deploy "web", .deploy "db", .deploy "web"]
        (Plan.ofGraph g).tasks ∧ harbour.jobs.keys ≠ [] ∧ harbour.containers.keys ≠ []) ∧
    (∃ g, resolve shore = .ok g ∧ (Plan.ofGraph g).tier = .disksAndArtifacts ∧
      List.Forall₂ (fun item t => g.target? item = some t.target) [.disk "data", .disk "logs", .artifact "site"]
        (Plan.ofGraph g).tasks ∧ [Item.disk "data", .disk "logs", .artifact "site"].Pairwise Item.Before) ∧
    ∃ g, resolve { services := .ofList [("db", [])] } = .ok g ∧ Plan.ofGraph g = ⟨.empty, []⟩ := by
  have hresolves : ∀ d : Document, fault? (resolve d) = none → ∃ g, resolve d = .ok g := fun _ => fault?_eq_none.1
  refine ⟨?_, ?_, ?_⟩
  · obtain ⟨g, hg⟩ := hresolves harbour (by decide +kernel)
    obtain ⟨htier, htasks, -, -, -, hjobs⟩ := resolve_cascades hg
    have hkeys : harbour.jobs.keys ≠ [] := by decide +kernel
    exact ⟨g, hg, htier, htasks, hkeys, (hjobs hkeys).2.1⟩
  · obtain ⟨g, hg⟩ := hresolves shore (by decide +kernel)
    obtain ⟨htier, htasks, horder, -⟩ := resolve_cascades hg
    have hshore : shore.tier = .disksAndArtifacts := by decide +kernel
    have hitems : shore.items shore.tier = [.disk "data", .disk "logs", .artifact "site"] := by decide +kernel
    rw [hitems] at htasks horder
    exact ⟨g, hg, htier.trans hshore, htasks, horder (by rw [hshore]; decide)⟩
  · obtain ⟨g, hg⟩ := hresolves { services := .ofList [("db", [])] } (by decide +kernel)
    exact ⟨g, hg, (resolve_cascades hg).2.2.2.2.1 rfl⟩

end Graph

end Rollout
