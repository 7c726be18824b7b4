import Rollout.Context
import Rollout.Document.Basic

/-! Resolved entities: each declaration with its name and copies of what it refers to. -/

namespace Rollout

structure Disk extends Decl.Disk where
  name : String
deriving DecidableEq

structure Volume where
  label : String
  disk : String
  mountPoint : String
  host : String
  resolved : Disk
deriving DecidableEq

structure Instance extends Decl.Instance where
  name : String
  labelSet : LabelSet
  mounts : List Volume
deriving DecidableEq

structure Artifact extends Decl.Artifact where
  name : String
deriving DecidableEq

structure Image extends Decl.Image where
  name : String
  resolvedArtifacts : List Artifact
deriving DecidableEq

structure Container extends Decl.Container where
  name : String
  /-- The image, if the document declares it. -/
  targetImage : Option Image
  targetInstance : Option String := none
deriving DecidableEq

structure Job extends Decl.Job where
  name : String
  requiredLabels : LabelSet
  /-- Set once the job is placed. -/
  template : Option Container
  /-- The instances it is placed on, ascending by name. -/
  instances : List Instance
  /-- One copy of the container for each instance. -/
  copies : List Container
deriving DecidableEq

structure Service where
  name : String
  jobs : List Job := []
  ports : Keyed (List ExposedPort) := ∅
deriving DecidableEq

/-- A document with every reference resolved. -/
structure Graph where
  disks : Keyed Disk := ∅
  instances : Keyed Instance := ∅
  artifacts : Keyed Artifact := ∅
  images : Keyed Image := ∅
  containers : Keyed Container := ∅
  jobs : Keyed Job := ∅
  services : Keyed Service := ∅
  deploys : List Service := []
deriving DecidableEq

instance : Templated Disk where
  fields d := [d.cloud, d.diskType].filterMap id
  mapFields f d := { d with cloud := d.cloud.map f, diskType := d.diskType.map f }

instance : Templated Volume where
  fields v := v.mountPoint :: fields v.resolved
  mapFields f v := { v with mountPoint := f v.mountPoint, resolved := mapFields f v.resolved }

instance : Templated Instance where
  fields i := [i.cloud, i.project, i.zone, i.machineType, i.image].filterMap id
    ++ i.mounts.flatMap fields
  mapFields f i :=
    { i with
      cloud := i.cloud.map f
      project := i.project.map f
      zone := i.zone.map f
      machineType := i.machineType.map f
      image := i.image.map f
      mounts := i.mounts.map (mapFields f) }

instance : Templated Artifact where
  fields a := [a.project, a.repository, a.build, a.tag].filterMap id
  mapFields f a :=
    { a with
      project := a.project.map f
      repository := a.repository.map f
      build := a.build.map f
      tag := a.tag.map f }

instance : Templated Image where
  fields i := [i.dockerfile, i.repository, i.tag].filterMap id ++ i.resolvedArtifacts.flatMap fields
  mapFields f i :=
    { i with
      dockerfile := i.dockerfile.map f
      repository := i.repository.map f
      tag := i.tag.map f
      resolvedArtifacts := i.resolvedArtifacts.map (mapFields f) }

instance : Templated Container where
  fields c := [c.image, c.command].filterMap id ++ c.ssh ++ c.environment
    ++ (c.targetImage.map fields).getD []
  mapFields f c :=
    { c with
      image := c.image.map f
      command := c.command.map f
      ssh := c.ssh.map f
      environment := c.environment.map f
      targetImage := c.targetImage.map (mapFields f) }

instance : Templated Job where
  fields j := (j.template.map fields).getD [] ++ j.instances.flatMap fields ++ j.copies.flatMap fields
  mapFields f j :=
    { j with
      template := j.template.map (mapFields f)
      instances := j.instances.map (mapFields f)
      copies := j.copies.map (mapFields f) }

instance : Templated Service where
  fields s := s.jobs.flatMap fields
  mapFields f s := { s with jobs := s.jobs.map (mapFields f) }

/-- All collections of the graph, one after another. -/
instance : Templated Graph where
  fields g := g.disks.values.flatMap fields ++ g.instances.values.flatMap fields
    ++ g.artifacts.values.flatMap fields ++ g.images.values.flatMap fields
    ++ g.containers.values.flatMap fields ++ g.jobs.values.flatMap fields
    ++ g.services.values.flatMap fields ++ g.deploys.flatMap fields
  mapFields f g :=
    { disks := g.disks.map (mapFields f)
      instances := g.instances.map (mapFields f)
      artifacts := g.artifacts.map (mapFields f)
      images := g.images.map (mapFields f)
      containers := g.containers.map (mapFields f)
      jobs := g.jobs.map (mapFields f)
      services := g.services.map (mapFields f)
      deploys := g.deploys.map (mapFields f) }

end Rollout
