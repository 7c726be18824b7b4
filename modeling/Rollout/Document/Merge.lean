import Rollout.Document.Basic
import Rollout.Trace

/-! Folding one document into another. The incoming document wins key by key, its deploys are appended, and
its import list is not taken over. -/

namespace Rollout.Document

/-- `b` folded into `a`. Imports and recorded overrides are those of `a`. -/
def merge (a b : Document) : Document where
  imports := a.imports
  vars := a.vars.override b.vars
  deploys := a.deploys ++ b.deploys
  services := a.services.override b.services
  artifacts := a.artifacts.override b.artifacts
  images := a.images.override b.images
  containers := a.containers.override b.containers
  disks := a.disks.override b.disks
  instances := a.instances.override b.instances
  jobs := a.jobs.override b.jobs
  overrides := a.overrides

/-- The entries of `a` that folding in `b` replaces, by section and ascending key. -/
def replaced (a b : Document) : List Override :=
  (a.vars.sharedKeys b.vars).map (⟨.vars, ·⟩)
    ++ (a.artifacts.sharedKeys b.artifacts).map (⟨.artifacts, ·⟩)
    ++ (a.images.sharedKeys b.images).map (⟨.images, ·⟩)
    ++ (a.containers.sharedKeys b.containers).map (⟨.containers, ·⟩)
    ++ (a.disks.sharedKeys b.disks).map (⟨.disks, ·⟩)
    ++ (a.instances.sharedKeys b.instances).map (⟨.instances, ·⟩)
    ++ (a.jobs.sharedKeys b.jobs).map (⟨.jobs, ·⟩)
    ++ (a.services.sharedKeys b.services).map (⟨.services, ·⟩)

/-- Folds in an imported document and records what it brought along and what it replaced. -/
def absorb (a b : Document) : Document :=
  { a.merge b with overrides := a.overrides ++ b.overrides ++ a.replaced b }

def mergeLines (a b : Document) : List Line :=
  (a.replaced b).map fun o =>
    ⟨.debug, "entry overridden by import", [("section", .text o.part.name), ("key", .text o.key)]⟩

end Rollout.Document
