import Rollout.Data.Basic
import Rollout.Document.Encode
import Rollout.Graph.Basic

/-! Tasks: an entity to provision with a line that describes it. -/

namespace Rollout

inductive Target where
  | disk (d : Disk)
  | instance (i : Instance)
  | artifact (a : Artifact)
  | image (i : Image)
  | container (c : Container)
  | job (j : Job)
  | service (s : Service)
  | deploy (s : Service)
deriving DecidableEq

namespace Target

def kind : Target → String
  | disk _ => "disk"
  | .instance _ => "instance"
  | artifact _ => "artifact"
  | image _ => "image"
  | container _ => "container"
  | job _ => "job"
  | service _ => "service"
  | deploy _ => "deploy"

instance : Templated Target where
  fields
    | disk e => fields e
    | .instance e => fields e
    | artifact e => fields e
    | image e => fields e
    | container e => fields e
    | job e => fields e
    | service e => fields e
    | deploy e => fields e
  mapFields f
    | disk e => disk (mapFields f e)
    | .instance e => .instance (mapFields f e)
    | artifact e => artifact (mapFields f e)
    | image e => image (mapFields f e)
    | container e => container (mapFields f e)
    | job e => job (mapFields f e)
    | service e => service (mapFields f e)
    | deploy e => deploy (mapFields f e)

end Target

structure Task where
  description : String
  target : Target
deriving DecidableEq

def Disk.task (d : Disk) : Task :=
  let size := (d.sizeGb.map fun n => " (" ++ toString n.toNat ++ " GB)").getD ""
  ⟨"disk " ++ d.name ++ size, .disk d⟩

def Instance.task (i : Instance) : Task := ⟨"instance " ++ i.name, .instance i⟩

def Artifact.task (a : Artifact) : Task := ⟨"artifact " ++ a.name, .artifact a⟩

def Image.task (i : Image) : Task :=
  ⟨"image " ++ i.name ++ " (" ++ toString i.resolvedArtifacts.length ++ " artifact(s))", .image i⟩

def Container.task (c : Container) : Task :=
  let place := (c.targetInstance.map (" on " ++ ·)).getD ""
  ⟨"container " ++ c.name ++ " (" ++ c.image.getD "-" ++ ")" ++ place, .container c⟩

def Job.task (j : Job) : Task :=
  ⟨"job " ++ j.name ++ " on [" ++ ", ".intercalate (j.instances.map fun i => i.name) ++ "]", .job j⟩

def Service.summary (s : Service) : String :=
  "service " ++ s.name ++ " (" ++ toString s.jobs.length ++ " job(s))"

def Service.task (s : Service) : Task := ⟨s.summary, .service s⟩

def Service.deployTask (s : Service) : Task := ⟨"deploy " ++ s.summary, .deploy s⟩

def ExposedPort.encode (p : ExposedPort) : Data :=
  .record [("host", .nat p.host.toNat), ("container", .nat p.container.toNat),
    ("protocol", .text p.protocol.name)]

/-- The fields of a service, with its jobs as they are declared. -/
def Service.fields (s : Service) : List Encode.OptField :=
  [Encode.always "name" (.text s.name),
    Encode.always "jobs" (.list (s.jobs.map fun j => j.toJob.encode)),
    Encode.always "ports" (Encode.keyed (fun ps => .list (ps.map ExposedPort.encode)) s.ports)]

/-- The kind, followed by the fields that the entity is declared with. -/
def Target.encode (t : Target) : Data :=
  Encode.fields (Encode.always "kind" (.text t.kind) ::
    match t with
    | disk d => d.toDisk.fields
    | .instance i => i.toInstance.fields
    | artifact a => a.toArtifact.fields
    | image i => i.toImage.fields
    | container c => c.toContainer.fields
    | job j => j.toJob.fields
    | service s => s.fields
    | deploy s => s.fields)

def Task.encode (t : Task) : Data :=
  .record [("description", .text t.description), ("target", t.target.encode)]

end Rollout
