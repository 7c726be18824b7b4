import Rollout.Data.Basic
import Rollout.Document.Basic
import Rollout.Yaml.Write

/-! Documents as plain data and as YAML text. Fields stand in a fixed order and are left out where there is
nothing to say. -/

namespace Rollout

namespace Encode

abbrev OptField := Option (String × Data)

def fields (fs : List OptField) : Data := .record (fs.filterMap id)

def optText (name : String) (s : Option String) : OptField :=
  s.map fun s => (name, .text s)

def always (name : String) (d : Data) : OptField := some (name, d)

def texts (name : String) (ss : List String) : OptField :=
  if ss.isEmpty then none else some (name, Data.texts ss)

variable {α : Type}

def keyed (encode : α → Data) (m : Keyed α) : Data :=
  .record (m.entries.map fun e => (e.1, encode e.2))

def optKeyed (name : String) (encode : α → Data) (m : Keyed α) : OptField :=
  if m.isEmpty then none else some (name, keyed encode m)

def labels (r : RawLabels) : Data :=
  match r with
  | .inline s => .text s
  | .list items => Data.texts items

/-- Labels are left out when they denote no label at all. -/
def optLabels (name : String) (r : RawLabels) : OptField :=
  if r.isEmpty then none else some (name, labels r)

def portItem : PortItem → Data
  | .number n => .int n.toInt
  | .text s => .text s

def portList : PortList → Data
  | .single item => portItem item
  | .list items => .list (items.map portItem)
  | .empty => .null

end Encode

open Encode

def Decl.Disk.fields (d : Decl.Disk) : List OptField :=
  [optText "cloud" d.cloud, optText "type" d.diskType,
    d.sizeGb.map fun n => ("size_gb", .nat n.toNat)]

def Decl.Instance.fields (i : Decl.Instance) : List OptField :=
  [optText "cloud" i.cloud, optText "project" i.project, optText "zone" i.zone,
    optText "machine_type" i.machineType, optText "image" i.image, optLabels "labels" i.labels,
    optKeyed "volumes" (Encode.keyed .text) i.volumes]

def Decl.Artifact.fields (a : Decl.Artifact) : List OptField :=
  [optText "project" a.project, optText "repository" a.repository, optText "build" a.build,
    optText "tag" a.tag]

def Decl.Image.fields (i : Decl.Image) : List OptField :=
  [optText "dockerfile" i.dockerfile, optText "repository" i.repository, optText "tag" i.tag,
    texts "artifacts" i.artifacts]

def Decl.Container.fields (c : Decl.Container) : List OptField :=
  [optText "image" c.image, optText "command" c.command, texts "ssh" c.ssh,
    texts "environment" c.environment]

def Decl.Job.fields (j : Decl.Job) : List OptField :=
  [always "container" (.text j.container), optLabels "instance_labels" j.instanceLabels]

def Decl.Disk.encode (d : Decl.Disk) : Data := Encode.fields d.fields

def Decl.Instance.encode (i : Decl.Instance) : Data := Encode.fields i.fields

def Decl.Artifact.encode (a : Decl.Artifact) : Data := Encode.fields a.fields

def Decl.Image.encode (i : Decl.Image) : Data := Encode.fields i.fields

def Decl.Container.encode (c : Decl.Container) : Data := Encode.fields c.fields

def Decl.Job.encode (j : Decl.Job) : Data := Encode.fields j.fields

def Decl.Service.encode (s : Decl.Service) : Data := .list (s.map (Encode.keyed portList))

namespace Document

def encode (d : Document) : Data :=
  Encode.fields
    [texts "imports" d.imports, optKeyed "vars" .text d.vars, texts "deploys" d.deploys,
      optKeyed "services" Decl.Service.encode d.services,
      optKeyed "artifacts" Decl.Artifact.encode d.artifacts,
      optKeyed "images" Decl.Image.encode d.images,
      optKeyed "containers" Decl.Container.encode d.containers,
      optKeyed "disks" Decl.Disk.encode d.disks,
      optKeyed "instances" Decl.Instance.encode d.instances,
      optKeyed "jobs" Decl.Job.encode d.jobs]

def toYaml (d : Document) : String :=
  Yaml.write (Yaml.Node.ofData d.encode)

end Document

end Rollout
