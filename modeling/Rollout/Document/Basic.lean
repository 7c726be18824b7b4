import Rollout.Keyed
import Rollout.Label
import Rollout.Port

/-! The deployment document: what it declares, as written. Everything that follows from the declarations is
in the resolved graph. -/

namespace Rollout

namespace Decl

structure Disk where
  cloud : Option String := none
  diskType : Option String := none
  sizeGb : Option UInt64 := none
deriving DecidableEq, Inhabited

/-- A machine that jobs can be placed on. `volumes` maps a volume label to mount points by disk key. -/
structure Instance where
  cloud : Option String := none
  project : Option String := none
  zone : Option String := none
  machineType : Option String := none
  image : Option String := none
  labels : RawLabels := .list []
  volumes : Keyed (Keyed String) := ∅
deriving DecidableEq, Inhabited

structure Artifact where
  project : Option String := none
  repository : Option String := none
  build : Option String := none
  tag : Option String := none
deriving DecidableEq, Inhabited

structure Image where
  dockerfile : Option String := none
  repository : Option String := none
  tag : Option String := none
  artifacts : List String := []
deriving DecidableEq, Inhabited

/-- A container template. Its image is a key of the document or an image hosted elsewhere. -/
structure Container where
  image : Option String := none
  command : Option String := none
  ssh : List String := []
  environment : List String := []
deriving DecidableEq, Inhabited

/-- Runs a container on every instance that offers the labels. -/
structure Job where
  container : String := ""
  instanceLabels : RawLabels := .list []
deriving DecidableEq, Inhabited

/-- The jobs of a service with their ports, in order of declaration. -/
abbrev Service := List (Keyed PortList)

end Decl

/-- The parts of a document that imports can override key by key. -/
inductive Section where
  | vars
  | artifacts
  | images
  | containers
  | disks
  | instances
  | jobs
  | services
deriving DecidableEq

def Section.name : Section → String
  | vars => "vars"
  | artifacts => "artifacts"
  | images => "images"
  | containers => "containers"
  | disks => "disks"
  | instances => "instances"
  | jobs => "jobs"
  | services => "services"

structure Override where
  part : Section
  key : String
deriving DecidableEq

def Override.message (o : Override) : String :=
  o.part.name ++ "[" ++ o.key ++ "] overridden by import"

structure Document where
  /-- Paths of documents folded into this one. -/
  imports : List String := []
  vars : Keyed String := ∅
  /-- Services to deploy, in order. -/
  deploys : List String := []
  services : Keyed Decl.Service := ∅
  artifacts : Keyed Decl.Artifact := ∅
  images : Keyed Decl.Image := ∅
  containers : Keyed Decl.Container := ∅
  disks : Keyed Decl.Disk := ∅
  instances : Keyed Decl.Instance := ∅
  jobs : Keyed Decl.Job := ∅
  /-- What imports replaced on the way to this document; not part of its text. -/
  overrides : List Override := []
deriving DecidableEq, Inhabited

end Rollout
