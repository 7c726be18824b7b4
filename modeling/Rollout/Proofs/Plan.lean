import Rollout.Plan
import Rollout.Proofs.Keyed

/-! Choosing a plan and rewriting fields commute. The tier of a plan depends on which collections have any entity,
its targets are the entities of one of them, and what a task says of its entity comes from parts that binding
leaves alone, except for the image of a container. -/

namespace Rollout

section Commuting

variable {α β : Type} {h : α → α} {t : α → β} {k : β → β}

theorem map_comm_of (hc : ∀ a, t (h a) = k (t a)) (l : List α) :
    (l.map h).map t = (l.map t).map k := by
  rw [List.map_map, List.map_map]
  exact List.map_congr_left fun a _ => hc a

theorem Keyed.map_comm_of (hc : ∀ a, t (h a) = k (t a)) (m : Keyed α) :
    (m.map h).values.map t = (m.values.map t).map k := by
  rw [values_map]
  exact Rollout.map_comm_of hc m.values

end Commuting

/-- Rewrites the fields of the target; the description stays. -/
def Task.mapTarget (f : String → String) (t : Task) : Task := { t with target := mapFields f t.target }

section Rewriting

variable (f : String → String)

theorem Disk.task_mapFields (d : Disk) : (mapFields f d).task = d.task.mapTarget f := rfl

theorem Instance.task_mapFields (i : Instance) : (mapFields f i).task = i.task.mapTarget f := rfl

theorem Artifact.task_mapFields (a : Artifact) : (mapFields f a).task = a.task.mapTarget f := rfl

theorem Image.task_mapFields (i : Image) : (mapFields f i).task = i.task.mapTarget f := by
  have hlength : (mapFields f i).resolvedArtifacts.length = i.resolvedArtifacts.length := List.length_map ..
  rw [Image.task, hlength]
  rfl

theorem Job.task_mapFields (j : Job) : (mapFields f j).task = j.task.mapTarget f := by
  have hnames : (mapFields f j).instances.map (fun i => i.name) = j.instances.map fun i => i.name := by
    change (j.instances.map (mapFields f)).map _ = _
    rw [List.map_map]
    rfl
  rw [Job.task, hnames]
  rfl

theorem Service.deployTask_mapFields (s : Service) : (mapFields f s).deployTask = s.deployTask.mapTarget f := by
  have hlength : (mapFields f s).jobs.length = s.jobs.length := List.length_map ..
  rw [Service.deployTask, Service.summary, hlength]
  rfl

namespace Tier

/-- The tasks of a tier say the same before and after, unless they quote the image of a container. -/
theorem tasks_mapFields {t : Tier} (h : t ≠ containers) (g : Graph) :
    t.tasks (mapFields f g) = (t.tasks g).map (Task.mapTarget f) := by
  cases t with
  | deploys => exact map_comm_of (Service.deployTask_mapFields f) g.deploys
  | jobs => exact Keyed.map_comm_of (Job.task_mapFields f) g.jobs
  | containers => exact absurd rfl h
  | instances => exact Keyed.map_comm_of (Instance.task_mapFields f) g.instances
  | images => exact Keyed.map_comm_of (Image.task_mapFields f) g.images
  | disksAndArtifacts =>
    rw [tasks, tasks, List.map_append]
    exact congrArg₂ (· ++ ·) (Keyed.map_comm_of (Disk.task_mapFields f) g.disks)
      (Keyed.map_comm_of (Artifact.task_mapFields f) g.artifacts)
  | empty => rfl

theorem targets_mapFields (t : Tier) (g : Graph) :
    (t.tasks (mapFields f g)).map Task.target = ((t.tasks g).map Task.target).map (mapFields f) := by
  by_cases h : t = containers
  · subst h
    have hc := Keyed.map_comm_of (h := mapFields f) (t := fun c : Container => c.task.target) (k := mapFields f)
      (fun _ => rfl) g.containers
    rw [tasks, tasks, List.map_map (l := g.containers.values)]
    exact (List.map_map ..).trans hc
  · rw [tasks_mapFields f h, List.map_map, List.map_map]
    rfl

theorem isEmpty_mapFields (t : Tier) (g : Graph) : (t.tasks (mapFields f g)).isEmpty = (t.tasks g).isEmpty := by
  simpa using congrArg List.isEmpty (targets_mapFields f t g)

def targets (g : Graph) : Tier → List Target
  | deploys => g.deploys.map .deploy
  | jobs => g.jobs.values.map .job
  | containers => g.containers.values.map .container
  | instances => g.instances.values.map .instance
  | images => g.images.values.map .image
  | disksAndArtifacts => g.disks.values.map .disk ++ g.artifacts.values.map .artifact
  | empty => []

theorem map_target_tasks (t : Tier) (g : Graph) : (t.tasks g).map Task.target = t.targets g := by
  cases t with
  | disksAndArtifacts =>
    simp only [tasks, targets, List.map_append, List.map_map]
    rfl
  | empty => rfl
  | _ =>
    simp only [tasks, targets, List.map_map]
    rfl

end Tier

theorem Plan.tier_mapFields (g : Graph) : (ofGraph (mapFields f g)).tier = (ofGraph g).tier := by
  simp only [ofGraph, Tier.isEmpty_mapFields]

end Rewriting

namespace Plan

/-- A plan of the tier that would be chosen for the graph, whose targets are the entities of that tier as they
stand in the graph. -/
structure Fits (p : Plan) (g : Graph) : Prop where
  tier : p.tier = (ofGraph g).tier
  targets : p.tasks.map Task.target = p.tier.targets g

theorem fits_ofGraph (g : Graph) : (ofGraph g).Fits g :=
  ⟨rfl, Tier.map_target_tasks _ g⟩

/-- A plan that is bound fits the graph that is bound. -/
theorem Fits.bind {p : Plan} {g : Graph} (h : p.Fits g) (c : Context) (env : Environment) :
    (p.bind c env).Fits (c.bind env g) where
  tier := h.tier.trans (tier_mapFields (c.eval env) g).symm
  targets := by
    change (p.tasks.map (Task.mapTarget (c.eval env))).map Task.target = p.tier.targets (mapFields (c.eval env) g)
    calc (p.tasks.map (Task.mapTarget (c.eval env))).map Task.target
        = (p.tasks.map Task.target).map (mapFields (c.eval env)) := by
          rw [List.map_map, List.map_map]
          rfl
      _ = ((p.tier.tasks g).map Task.target).map (mapFields (c.eval env)) := by
          rw [h.targets, Tier.map_target_tasks]
      _ = p.tier.targets (mapFields (c.eval env) g) := by
          rw [← Tier.targets_mapFields, Tier.map_target_tasks]

theorem descriptions_bind {g : Graph} (h : (ofGraph g).tier ≠ .containers) (c : Context) (env : Environment) :
    (ofGraph (c.bind env g)).tasks.map Task.description =
      ((ofGraph g).bind c env).tasks.map Task.description := by
  change ((ofGraph (mapFields (c.eval env) g)).tier.tasks (mapFields (c.eval env) g)).map Task.description = _
  rw [tier_mapFields, Tier.tasks_mapFields _ h]
  rfl

end Plan

end Rollout
