import Rollout.Error
import Rollout.Graph.Basic

/-! Resolving the references of a document. Each collection reads those before it: disks, instances,
artifacts, images, containers, jobs, services, deploys. The first dangling reference, unplaceable job or bad
port entry is the error. -/

namespace Rollout

namespace Resolve

def disks (d : Document) : Keyed Disk :=
  d.disks.mapWithKey fun key disk => { disk with name := key }

def attach (disks : Keyed Disk) (host label : String) (points : Keyed String) :
    Except Error (List Volume) :=
  points.entries.mapM fun (key, mountPoint) =>
    match disks.get? key with
    | none => .error (.reference .disk key (.volume host label))
    | some disk => .ok ⟨label, key, mountPoint, host, disk⟩

/-- An instance with its labels parsed and its disks attached, by ascending label and disk. -/
def host (disks : Keyed Disk) (key : String) (i : Decl.Instance) : Except Error Instance := do
  let mounts ← i.volumes.entries.mapM fun (label, points) => attach disks key label points
  return { i with name := key, labelSet := i.labels.parse, mounts := mounts.flatten }

def instances (d : Document) : Except Error (Keyed Instance) :=
  d.instances.traverse (host (disks d))

def artifacts (d : Document) : Keyed Artifact :=
  d.artifacts.mapWithKey fun key a => { a with name := key }

/-- Artifacts that the document does not declare are skipped. -/
def images (d : Document) : Keyed Image :=
  let declared := artifacts d
  d.images.mapWithKey fun key i =>
    { i with name := key, resolvedArtifacts := i.artifacts.filterMap declared.get? }

/-- An image that the document does not declare is hosted elsewhere. -/
def containers (d : Document) : Keyed Container :=
  let declared := images d
  d.containers.mapWithKey fun key c =>
    { c with name := key, targetImage := c.image.bind declared.get? }

def place (containers : Keyed Container) (instances : Keyed Instance) (key : String) (j : Decl.Job) :
    Except Error Job :=
  match containers.get? j.container with
  | none => .error (.reference .container j.container (.job key))
  | some template =>
    let required := j.instanceLabels.parse
    let hosts := instances.values.filter fun i => required.satisfies i.labelSet
    if instances.isEmpty then .error (.placement key .noInstances)
    else if hosts = [] then .error (.placement key .noMatch)
    else
      let copies := hosts.map fun i => { template with targetInstance := some i.name }
      -- never the case, as there is a host by now
      if copies = [] then .error (.placement key .noCopies)
      else .ok { j with
        name := key
        requiredLabels := required
        template := some template
        instances := hosts
        copies := copies }

/-- Adds a job with its ports to a service. Ports of a job given again replace the earlier ones. -/
def expose (jobs : Keyed Job) (s : Service) (key : String) (ports : PortList) :
    Except Error Service :=
  match jobs.get? key with
  | none => .error (.reference .job key (.service s.name))
  | some job =>
    match ports.parse with
    | .error e => .error (.ports key e)
    | .ok ports => .ok { s with jobs := s.jobs ++ [job], ports := s.ports.insert key ports }

/-- A service with the jobs of its elements in order, within an element by ascending key. -/
def service (jobs : Keyed Job) (key : String) (elements : Decl.Service) : Except Error Service :=
  (elements.flatMap Keyed.entries).foldlM (fun s e => expose jobs s e.1 e.2) { name := key }

def deploys (services : Keyed Service) (keys : List String) : Except Error (List Service) :=
  keys.mapM fun key =>
    match services.get? key with
    | none => .error (.reference .service key .deploys)
    | some s => .ok s

end Resolve

namespace Graph

def resolve (d : Document) : Except Error Graph := do
  let instances ← Resolve.instances d
  let jobs ← d.jobs.traverse (Resolve.place (Resolve.containers d) instances)
  let services ← d.services.traverse (Resolve.service jobs)
  let deploys ← Resolve.deploys services d.deploys
  return {
    disks := Resolve.disks d
    instances := instances
    artifacts := Resolve.artifacts d
    images := Resolve.images d
    containers := Resolve.containers d
    jobs := jobs
    services := services
    deploys := deploys }

def skippedLines (d : Document) : List Line :=
  d.images.entries.flatMap fun (key, i) =>
    (i.artifacts.filter fun a => !d.artifacts.contains a).map fun a =>
      ⟨.debug, "artifact not in document, skipped", [("image", .text key), ("artifact", .text a)]⟩

/-- A line for every job placed before the first that cannot be. -/
def placedLines (containers : Keyed Container) (instances : Keyed Instance) :
    List (String × Decl.Job) → List Line
  | [] => []
  | (key, j) :: rest =>
    match Resolve.place containers instances key j with
    | .error _ => []
    | .ok job =>
      ⟨.debug, "job placed", [("job", .text key), ("instances", .number job.instances.length)]⟩
        :: placedLines containers instances rest

def resolveLines (d : Document) : List Line :=
  match Resolve.instances d with
  | .error _ => []
  | .ok instances =>
    skippedLines d ++ placedLines (Resolve.containers d) instances d.jobs.entries
      ++ match resolve d with
        | .error _ => []
        | .ok g => [⟨.debug, "document resolved",
            [("disks", .number g.disks.size), ("instances", .number g.instances.size),
              ("jobs", .number g.jobs.size), ("services", .number g.services.size),
              ("deploys", .number g.deploys.length)]⟩]

end Graph

end Rollout
