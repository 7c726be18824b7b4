import Rollout.Cli.Arguments
import Rollout.Config
import Rollout.Data.Json
import Rollout.Import
import Rollout.Session.Basic

/-! The four commands: show the plan, validate, apply, and print the document with its imports folded in. -/

namespace Rollout.Cli

inductive Failure where
  /-- Standard input is no text. -/
  | stdin
  /-- The document could not be loaded; `doing` says from where. -/
  | load (doing : String) (e : Error)
  | deploy (e : Error)

/-- The messages of a failure, outermost first, each with what lies under it; `text` words the errors. -/
def Failure.chain (text : Error → String) : Failure → List String
  | stdin => ["cannot read stdin", FileFault.notText.message]
  | load doing e => [doing, text e] ++ e.source?.toList
  | deploy e => text e :: e.source?.toList

/-- What a command came to: its output, or what ended it, and the lines it traced. -/
abbrev Outcome := Traced (Except Failure String)

/-- The path that stands for standard input: a single dash, with empty names and dots after it. -/
def isStdin (path : String) : Bool :=
  match Path.names path with
  | [] => false
  | name :: rest => name = "-" && rest.all fun n => n = "" || n = "."

/-- Loads the document of a command. `stdin` is absent if it is no text. -/
def load (w : World) (stdin : Option String) (file : String) : Traced (Except Failure Document) :=
  if isStdin file then
    match stdin with
    | none => ⟨.error .stdin, []⟩
    | some text =>
      (w.loadTextTraced text ".").map (·.mapError (.load "cannot load document from stdin"))
  else (w.loadTraced file).map (·.mapError (.load ("cannot load " ++ file)))

def overrideLines (d : Document) : List Line :=
  d.overrides.map fun o =>
    ⟨.warn, "entry overridden by import", [("section", .text o.part.name), ("key", .text o.key)]⟩

def plan (env : Environment) (file : String) (json : Bool) (d : Document) : Outcome :=
  let lines := overrideLines d ++ Graph.resolveLines d
  match Graph.resolve d with
  | .error e => ⟨.error (.deploy e), lines⟩
  | .ok graph =>
    let c := Context.ofVars env d.vars
    let p := Plan.ofGraph graph
    let bound := p.bind c env
    let text := if json then Data.jsonPretty 0 bound.encode ++ "\n" else bound.listing file c.mode
    ⟨.ok text, lines ++ p.lines ++ p.bindLines c⟩

/-- Deploys as a rehearsal, or goes no further than validating. -/
def rehearse (env : Environment) (validateOnly : Bool) (live : Option Bool) (d : Document) :
    Except Error Report × Session DryRun :=
  let s : Session DryRun := { document := d, env := env, live := live, state := {} }
  if validateOnly then s.check DryRun.provisioner else s.apply DryRun.provisioner

def render (d : Document) : Outcome :=
  ⟨.ok { d with imports := [] }.toYaml, overrideLines d⟩

def onDocument {α : Type} (w : World) (stdin : Option String) (file : String)
    (next : Document → Traced (Except Failure α)) : Traced (Except Failure α) :=
  let loaded := load w stdin file
  match loaded.value with
  | .error f => ⟨.error f, loaded.lines⟩
  | .ok d => (next d).after loaded.lines

def orchestrate (w : World) (stdin : Option String) (config : Config) : Traced (Except Failure Report) :=
  onDocument w stdin config.document fun d =>
    let (result, s) := rehearse w.env config.validateOnly config.live d
    ⟨result.mapError .deploy, s.lines⟩

def deploy (w : World) (stdin : Option String) (config : Config) : Outcome :=
  (orchestrate w stdin config).map (·.map fun report => report.text config.validateOnly ++ "\n")

def Command.file : Command → String
  | plan file _ | validate file | apply file _ | render file => file

def Command.run (w : World) (stdin : Option String) : Command → Outcome
  | plan file json => onDocument w stdin file (Cli.plan w.env file json)
  | validate file => deploy w stdin { document := file, validateOnly := true }
  | apply file live => deploy w stdin { document := file, live := if live then some true else none }
  | render file => onDocument w stdin file Cli.render

end Rollout.Cli
