import Rollout.Document.Basic
import Rollout.Text.Blank
import Rollout.Yaml.Decode
import Rollout.Yaml.Parse

/-! Reading documents from YAML. -/

namespace Rollout

namespace Decode

open Yaml Yaml.Decode

def strictText : Decoder String
  | .scalar tag style s => if scalarKind? tag style s = some .text then .ok s else .error .mistyped
  | n => .error (.of n)

/-- Labels are one text or a list of texts; nothing but a text counts as one. -/
def labels (depth : Nat) : Decoder RawLabels := fun n => do
  survey depth n
  match n with
  | .sequence _ items => (items.mapM strictText).map .list
  | n => (strictText n).map .inline

def portItem : Decoder PortItem
  | .scalar tag style s =>
    match scalarKind? tag style s with
    | some (.int n) => if n ≤ Int64.maxValue.toInt then .ok (.number (Int64.ofInt n)) else .error .mistyped
    | some .text => .ok (.text s)
    | _ => .error .mistyped
  | n => .error (.of n)

def portList (depth : Nat) : Decoder PortList := fun n => do
  survey depth n
  match n with
  | .sequence _ items => (items.mapM portItem).map .list
  | .scalar tag style s =>
    if scalarKind? tag style s = some .null then .ok .empty
    else (portItem (.scalar tag style s)).map .single
  | n => .error (.of n)

def scalarText? : Value → Option String
  | .null => some ""
  | .bool b => some (if b then "true" else "false")
  | .int n => some (toString n)
  | .real s => some s
  | .text s => some s
  | _ => none

/-- Variables take any scalar. All values are read before the first that is none is reported. -/
def vars : Decoder (Keyed String) := fun n => do
  let values ← optional (keyed (Value.read (depthLimit - 2))) n
  (values.getD ∅).traverse fun key v =>
    match scalarText? v with
    | some s => .ok s
    | none => .error (.notScalar key)

end Decode

open Yaml Yaml.Decode

def Decl.Disk.decode : Decoder Decl.Disk := record
  [field "cloud" (optional text) fun d v => { d with cloud := v },
    field "type" (optional text) fun d v => { d with diskType := v },
    field "size_gb" (optional unsigned) fun d v => { d with sizeGb := v }] {}

def Decl.Instance.decode : Decoder Decl.Instance := record
  [field "cloud" (optional text) fun i v => { i with cloud := v },
    field "project" (optional text) fun i v => { i with project := v },
    field "zone" (optional text) fun i v => { i with zone := v },
    field "machine_type" (optional text) fun i v => { i with machineType := v },
    field "image" (optional text) fun i v => { i with image := v },
    field "labels" (Decode.labels (depthLimit - 3)) fun i v => { i with labels := v },
    field "volumes" (keyed (keyed text)) fun i v => { i with volumes := v }] {}

def Decl.Artifact.decode : Decoder Decl.Artifact := record
  [field "project" (optional text) fun a v => { a with project := v },
    field "repository" (optional text) fun a v => { a with repository := v },
    field "build" (optional text) fun a v => { a with build := v },
    field "tag" (optional text) fun a v => { a with tag := v }] {}

def Decl.Image.decode : Decoder Decl.Image := record
  [field "dockerfile" (optional text) fun i v => { i with dockerfile := v },
    field "repository" (optional text) fun i v => { i with repository := v },
    field "tag" (optional text) fun i v => { i with tag := v },
    field "artifacts" (list text) fun i v => { i with artifacts := v }] {}

def Decl.Container.decode : Decoder Decl.Container := record
  [field "image" (optional text) fun c v => { c with image := v },
    field "command" (optional text) fun c v => { c with command := v },
    field "ssh" (list text) fun c v => { c with ssh := v },
    field "environment" (list text) fun c v => { c with environment := v }] {}

def Decl.Job.decode : Decoder Decl.Job := record
  [field "container" text fun j v => { j with container := v },
    field "instance_labels" (Decode.labels (depthLimit - 3))
      fun j v => { j with instanceLabels := v }] {}

def Decl.Service.decode : Decoder Decl.Service :=
  list (keyed (Decode.portList (depthLimit - 4)))

namespace Document

def decode : Decoder Document := record
  [field "imports" (list text) fun d v => { d with imports := v },
    field "vars" Decode.vars fun d v => { d with vars := v },
    field "deploys" (list text) fun d v => { d with deploys := v },
    field "services" (keyed Decl.Service.decode) fun d v => { d with services := v },
    field "artifacts" (keyed Decl.Artifact.decode) fun d v => { d with artifacts := v },
    field "images" (keyed Decl.Image.decode) fun d v => { d with images := v },
    field "containers" (keyed Decl.Container.decode) fun d v => { d with containers := v },
    field "disks" (keyed Decl.Disk.decode) fun d v => { d with disks := v },
    field "instances" (keyed Decl.Instance.decode) fun d v => { d with instances := v },
    field "jobs" (keyed Decl.Job.decode) fun d v => { d with jobs := v }] {}

/-- Reads a document without following its imports. Text of nothing but white space is the empty one. -/
def ofYaml (text : String) : Except Yaml.Error Document :=
  if Text.trimList text.toList = [] then .ok {}
  else
    match Yaml.parse? text with
    | none => .error .illFormed
    | some tree => decode tree.expanded

end Document

def PortList.ofYaml (text : String) : Except Yaml.Error PortList :=
  match Yaml.parse? text with
  | none => .error .illFormed
  | some tree => Decode.portList Yaml.depthLimit tree.expanded

end Rollout
