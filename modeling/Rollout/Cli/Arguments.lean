import Rollout.Config
import Rollout.Environment

/-! Command lines. Arguments are taken from the left; what the command line leaves open comes from the
environment and then from defaults. -/

namespace Rollout.Cli

inductive Command where
  | plan (file : String) (json : Bool)
  | validate (file : String)
  | apply (file : String) (live : Bool)
  | render (file : String)
deriving DecidableEq

structure Invocation where
  command : Command
  logJson : Bool
deriving DecidableEq

inductive Usage where
  | help
  | version
  /-- Nothing was given. -/
  | bare
  | missingSubcommand
  | invalidSubcommand
  | unknownArgument
  | invalidValue
  | attachedValue
  | repeatedFlag
deriving DecidableEq

/-- Asking for help or for the version is no failure. -/
def Usage.exitCode : Usage → Nat
  | help | version => 0
  | _ => 2

inductive Flag where
  | help
  | version
  | logJson
  | json
  | live
deriving DecidableEq

inductive Verb where
  | plan
  | validate
  | apply
  | render
deriving DecidableEq

def verb? : String → Option Verb
  | "plan" => some .plan
  | "validate" => some .validate
  | "apply" => some .apply
  | "render" => some .render
  | _ => none

def longFlags : Option Verb → List (String × Flag)
  | none => [("log-json", .logJson), ("help", .help), ("version", .version)]
  | some .plan => [("json", .json), ("log-json", .logJson), ("help", .help)]
  | some .apply => [("live", .live), ("log-json", .logJson), ("help", .help)]
  | some .validate | some .render => [("log-json", .logJson), ("help", .help)]

def shortFlags : Option Verb → List (Char × Flag)
  | none => [('h', .help), ('V', .version)]
  | some _ => [('h', .help)]

inductive Word where
  | escape
  | long (name : String) (attached : Bool)
  | short (letters : List Char)
  | plain (s : String)

def Word.ofArg (arg : String) : Word :=
  match arg.toList with
  | '-' :: '-' :: [] => escape
  | '-' :: '-' :: cs => long (String.ofList (cs.takeWhile (· ≠ '='))) (cs.contains '=')
  | '-' :: c :: cs => short (c :: cs)
  | _ => plain arg

/-- What one level of the command line has given so far. -/
structure Given where
  flags : List Flag := []
  file : Option String := none
  /-- After `--` nothing is a flag. -/
  escaped : Bool := false

namespace Given

/-- The path may not be empty. It is looked at when the next flag is taken, or at the end. -/
def checkFile (g : Given) : Except Usage Unit :=
  if g.file = some "" then .error .invalidValue else .ok ()

def addFlag (g : Given) (f : Flag) : Except Usage Given := do
  g.checkFile
  match f with
  | .help => .error .help
  | .version => .error .version
  | f => if f ∈ g.flags then .error .repeatedFlag else .ok { g with flags := f :: g.flags }

def addLong (v : Option Verb) (g : Given) (name : String) (attached : Bool) : Except Usage Given :=
  match (longFlags v).lookup name with
  | none => .error .unknownArgument
  | some f => if attached then .error .attachedValue else g.addFlag f

def addShort (v : Option Verb) (g : Given) (letters : List Char) : Except Usage Given :=
  letters.foldlM (fun g c =>
    match (shortFlags v).lookup c with
    | none => .error .unknownArgument
    | some f => g.addFlag f) g

def addPlain (g : Given) (s : String) : Except Usage Given :=
  match g.file with
  | some _ => .error .unknownArgument
  | none => .ok { g with file := some s }

def add (v : Verb) (g : Given) (arg : String) : Except Usage Given :=
  if g.escaped then g.addPlain arg
  else
    match Word.ofArg arg with
    | .escape => .ok { g with escaped := true }
    | .long name attached => g.addLong (some v) name attached
    | .short letters => g.addShort (some v) letters
    | .plain s => g.addPlain s

end Given

def documentVariable : String := "MAESTRO_DOCUMENT"

def liveVariable : String := "MAESTRO_LIVE"

def documentOf (env : Environment) (g : Given) : Except Usage String :=
  match g.file.or (env.lookup documentVariable) with
  | none => .ok ({} : Config).document
  | some "" => .error .invalidValue
  | some file => .ok file

def liveOf (env : Environment) (g : Given) : Except Usage Bool :=
  if Flag.live ∈ g.flags then .ok true
  else
    match env.lookup liveVariable with
    | none | some "false" => .ok false
    | some "true" => .ok true
    | some _ => .error .invalidValue

/-- The command of a subcommand's arguments, and whether they ask for trace lines in JSON. -/
def commandOf (env : Environment) (v : Verb) (args : List String) : Except Usage (Command × Bool) := do
  let g ← args.foldlM (Given.add v) {}
  let file ← documentOf env g
  let command ← match v with
    | .plan => .ok (.plan file (Flag.json ∈ g.flags))
    | .validate => .ok (.validate file)
    | .apply => (liveOf env g).map (.apply file)
    | .render => .ok (.render file)
  return (command, Flag.logJson ∈ g.flags)

/-- Help on a subcommand: at most one may be named. -/
def helpOn : List String → Usage
  | [] => .help
  | [name] => if (verb? name).isSome ∨ name = "help" then .help else .invalidSubcommand
  | _ => .invalidSubcommand

def invocationFrom (env : Environment) (g : Given) : List String → Except Usage Invocation
  | [] => .error (if g.flags = [] then .bare else .missingSubcommand)
  | arg :: rest =>
    if g.escaped then
      .error (if (verb? arg).isSome ∨ arg = "help" then .unknownArgument else .invalidSubcommand)
    else
      match verb? arg with
      | some v => (commandOf env v rest).map fun c => ⟨c.1, c.2 || g.flags.contains .logJson⟩
      | none =>
        if arg = "help" then .error (helpOn rest)
        else
          match Word.ofArg arg with
          | .escape => invocationFrom env { g with escaped := true } rest
          | .long name attached =>
            match g.addLong none name attached with
            | .error u => .error u
            | .ok g => invocationFrom env g rest
          | .short letters =>
            match g.addShort none letters with
            | .error u => .error u
            | .ok g => invocationFrom env g rest
          | .plain _ => .error .invalidSubcommand

def Invocation.ofArgs (env : Environment) (args : List String) : Except Usage Invocation :=
  invocationFrom env {} args

end Rollout.Cli
