import Rollout.FileTree
import Rollout.Phase
import Rollout.Port
import Rollout.Yaml.Decode

/-! Everything that can stop a deployment, and the wording of it. -/

namespace Rollout

inductive ParseCause where
  | yaml (e : Yaml.Error)
  /-- The chain of imports from the first file to the one that occurs twice. -/
  | cycle (chain : List Location)
  /-- An import that cannot be found or read. -/
  | unreadable (path : String) (fault : FileFault)
deriving DecidableEq

def ParseCause.message : ParseCause → String
  | yaml e => e.message
  | cycle chain => "import cycle: " ++ " -> ".intercalate (chain.map Location.text)
  | unreadable path fault => "cannot load import " ++ path ++ ": " ++ fault.message

inductive Referent where
  | disk
  | container
  | job
  | service
deriving DecidableEq

def Referent.name : Referent → String
  | disk => "disk"
  | container => "container"
  | job => "job"
  | service => "service"

inductive Referrer where
  | volume (host label : String)
  | job (key : String)
  | service (key : String)
  | deploys
deriving DecidableEq

def Referrer.text : Referrer → String
  | volume host label => "instance '" ++ host ++ "' volume '" ++ label ++ "'"
  | job key => "job '" ++ key ++ "'"
  | service key => "service '" ++ key ++ "'"
  | deploys => "deploys"

inductive PlacementFault where
  | noInstances
  | noMatch
  | noCopies
deriving DecidableEq

def PlacementFault.message : PlacementFault → String
  | noInstances => "no instances specified in document"
  | noMatch => "no instance satisfies the label selector"
  | noCopies => "no container instances created"

/-- Why a provisioner rejected a task, in its own words. -/
structure TaskError where
  message : String
deriving DecidableEq

inductive Error where
  /-- The root document cannot be found or read. -/
  | io (path : String) (fault : FileFault)
  | parse (path : String) (cause : ParseCause)
  | reference (referent : Referent) (key : String) (referrer : Referrer)
  | placement (job : String) (fault : PlacementFault)
  | ports (job : String) (error : PortError)
  | task (phase : TaskPhase) (index : Nat) (description : String) (error : TaskError)
  /-- A step in a phase that does not allow it. -/
  | lifecycle (operation : Operation) (phase : RunPhase)
deriving DecidableEq

namespace Error

def ioText (path detail : String) : String :=
  "I/O error at " ++ path ++ ": " ++ detail

def parseText (path detail : String) : String :=
  "failed to parse " ++ path ++ ": " ++ detail

def referenceText (referent key referrer : String) : String :=
  referent ++ " '" ++ key ++ "' not found (referenced by " ++ referrer ++ ")"

def placementText (job detail : String) : String :=
  "job '" ++ job ++ "': " ++ detail

def portsText (job spec detail : String) : String :=
  "bad port list for job '" ++ job ++ "': '" ++ spec ++ "': " ++ detail

def taskText (phase : TaskPhase) (index : Nat) (description detail : String) : String :=
  "task " ++ toString index ++ " (" ++ description ++ ") failed during " ++ phase.name ++ ": "
    ++ detail

def lifecycleText (operation phase : String) : String :=
  "cannot " ++ operation ++ " while " ++ phase

def message : Error → String
  | io path fault => ioText path fault.message
  | parse path cause => parseText path cause.message
  | reference referent key referrer => referenceText referent.name key referrer.text
  | placement job fault => placementText job fault.message
  | ports job e => portsText job e.spec e.fault.message
  | task phase index description e => taskText phase index description e.message
  | lifecycle operation phase => lifecycleText operation.name phase.name

/-- The message of what lies under the error, where that is an error of its own. -/
def source? : Error → Option String
  | io _ fault => some fault.message
  | task _ _ _ e => some e.message
  | _ => none

end Error

end Rollout
