import Rollout.Task

/-! The plan of a graph: the tasks of its highest tier that has any entity. -/

namespace Rollout

inductive Tier where
  | deploys
  | jobs
  | containers
  | instances
  | images
  | disksAndArtifacts
  | empty
deriving DecidableEq

namespace Tier

def all : List Tier := [deploys, jobs, containers, instances, images, disksAndArtifacts, empty]

def text : Tier → String
  | deploys => "deploys"
  | jobs => "jobs"
  | containers => "containers"
  | instances => "instances"
  | images => "images"
  | disksAndArtifacts => "disks and artifacts"
  | empty => "empty"

def key : Tier → String
  | disksAndArtifacts => "disks_and_artifacts"
  | t => t.text

def tasks (g : Graph) : Tier → List Task
  | deploys => g.deploys.map Service.deployTask
  | jobs => g.jobs.values.map Job.task
  | containers => g.containers.values.map Container.task
  | instances => g.instances.values.map Instance.task
  | images => g.images.values.map Image.task
  | disksAndArtifacts => g.disks.values.map Disk.task ++ g.artifacts.values.map Artifact.task
  | empty => []

end Tier

structure Plan where
  tier : Tier
  tasks : List Task
deriving DecidableEq

namespace Plan

/-- The first tier with a task, or the empty one. -/
def ofGraph (g : Graph) : Plan :=
  let tier := (Tier.all.find? fun t => !(t.tasks g).isEmpty).getD .empty
  ⟨tier, tier.tasks g⟩

def size (p : Plan) : Nat := p.tasks.length

def isEmpty (p : Plan) : Bool := p.tasks.isEmpty

/-- What choosing the plan traces. The last two tiers are what is left over and trace nothing. -/
def lines (p : Plan) : List Line :=
  match p.tier with
  | .disksAndArtifacts | .empty => []
  | tier => [⟨.debug, "task tier selected", [("tier", .text tier.text), ("tasks", .number p.size)]⟩]

/-- Binds the targets; descriptions stay. -/
def bind (c : Context) (env : Environment) (p : Plan) : Plan :=
  { p with tasks := p.tasks.map fun t => { t with target := c.bind env t.target } }

def bindCount (c : Context) (env : Environment) (p : Plan) : Nat :=
  p.tasks.foldl (fun n t => n + c.bindCount env t.target) 0

def bindLines (c : Context) (p : Plan) : List Line :=
  p.tasks.flatMap fun t => c.bindLines t.target

def encode (p : Plan) : Data :=
  .record [("tier", .text p.tier.key), ("tasks", .list (p.tasks.map Task.encode))]

end Plan

end Rollout
