import Rollout.Cli.Run

/-! The program: takes its settings, the files that the document reaches and standard input, runs the command
on them, and prints. -/

namespace Rollout.Program

def environment : IO Environment := do
  let bytes ← try IO.FS.readBinFile "/proc/self/environ" catch _ => pure ByteArray.empty
  return ⟨(bytes.toList.splitOn 0).filterMap fun part => String.fromUTF8? ⟨part.toArray⟩⟩

/-- What stands at a location on disk, where nothing above it is a link. -/
def entryAt (l : Location) : IO (Option FileEntry) := do
  try
    let path ← IO.FS.realPath l.text
    if path.toString ≠ l.text then return some (.link path.toString)
    if ← path.isDir then return some .directory
    return some (.file (String.fromUTF8? (← IO.FS.readBinFile path)))
  catch _ => return none

/-- Adds what a path passes through to the known files. -/
partial def addPath (w : World) : Location → List String → IO World
  | _, [] => return w
  | here, name :: rest => do
    if name = "" ∨ name = "." then addPath w here rest
    else if name = ".." then addPath w here.parent rest
    else
      let next := here.child name
      match w.files.get? next with
      | some (.link path) => addPath w ⟨[]⟩ (Path.names path ++ rest)
      | some _ => addPath w next rest
      | none =>
        match ← entryAt next with
        | none => return w
        | some e => addPath { w with files := ⟨w.files.entries ++ [(next, e)]⟩ } here (name :: rest)

/-- Adds a file and all that it imports, but not below the files already done. -/
partial def addFile (state : World × List Location) (path : String) : IO (World × List Location) := do
  let (w, done) := state
  let w ← addPath w (if Path.isAbsolute path then ⟨[]⟩ else w.cwd) (Path.names path)
  match w.fetch done path with
  | .error _ => return (w, done)
  | .ok (here, doc) =>
    doc.imports.foldlM (fun state raw => addFile state (Path.join here.parent.text (w.env.expand raw)))
      (w, here :: done)

partial def readAll (input : IO.FS.Stream) (sofar : ByteArray) : IO ByteArray := do
  let bytes ← input.read 65536
  if bytes.isEmpty then return sofar else readAll input (sofar ++ bytes)

def gather (w : World) (file : String) : IO (World × Option String) := do
  if Cli.isStdin file then
    let stdin := String.fromUTF8? (← readAll (← IO.getStdin) ByteArray.empty)
    match Document.ofYaml (stdin.getD "") with
    | .error _ => return (w, stdin)
    | .ok doc =>
      let state ← doc.imports.foldlM
        (fun state raw => addFile state (Path.join "." (w.env.expand raw))) (w, [])
      return (state.1, stdin)
  else return ((← addFile (w, []) file).1, none)

def lineData (l : Line) : Data :=
  .record ([("level", .text l.level.name), ("message", .text l.message)] ++ l.values.map fun v =>
    (v.1, match v.2 with
      | .text s => .text s
      | .number n => .nat n))

def lineText (l : Line) : String :=
  let value : LineValue → String
    | .text s => s
    | .number n => toString n
  " ".intercalate (l.level.name :: l.message :: l.values.map fun v => v.1 ++ "=" ++ value v.2)

def usageText : String :=
  "\n".intercalate
    ["Usage: rollout [--log-json] <plan|validate|apply|render> [FILE]", "",
      "  plan      Show the task plan a document resolves to (--json)",
      "  validate  Validate every task without running any",
      "  apply     Validate every task, then run them in order (--live)",
      "  render    Print the document with all imports folded in"]

def usageMessage : Cli.Usage → String
  | .help | .bare => usageText
  | .version => "rollout 0.1.0"
  | .missingSubcommand => "error: a subcommand is required"
  | .invalidSubcommand => "error: unrecognized subcommand"
  | .unknownArgument => "error: unexpected argument"
  | .invalidValue => "error: invalid value"
  | .attachedValue => "error: a flag takes no value"
  | .repeatedFlag => "error: a flag cannot be used twice"

/-- The outermost message, and below it what caused it. -/
def failureText : List String → String
  | [] => ""
  | [m] => "Error: " ++ m
  | m :: causes => "Error: " ++ m ++ "\n\nCaused by:\n    " ++ "\n    ".intercalate causes

def run (args : List String) : IO UInt32 := do
  let env ← environment
  match Cli.Invocation.ofArgs env args with
  | .error u =>
    if u.exitCode = 0 then IO.println (usageMessage u) else IO.eprintln (usageMessage u)
    return UInt32.ofNat u.exitCode
  | .ok invocation =>
    let cwd ← IO.currentDir
    let w : World := { env := env, cwd := ⟨(Path.names cwd.toString).filter (· ≠ "")⟩ }
    let w ← addPath w ⟨[]⟩ w.cwd.names
    let (w, stdin) ← gather w invocation.command.file
    let outcome := invocation.command.run w stdin
    for l in outcome.lines do
      if l.level ≠ .debug then
        IO.eprintln (if invocation.logJson then (lineData l).json else lineText l)
    match outcome.value with
    | .ok out =>
      IO.print out
      return 0
    | .error f =>
      IO.eprintln (failureText (f.chain Error.message))
      return 1

end Rollout.Program

def main (args : List String) : IO UInt32 := Rollout.Program.run args
