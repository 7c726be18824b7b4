import Rollout.Graph.Resolve
import Rollout.Report
import Rollout.Session.Event
import Rollout.Session.Provisioner

/-! A session takes one document from idle to applied. Every task is validated before any runs, both phases
stop at the first task that fails, and what already ran is left in place. -/

namespace Rollout

inductive Entry where
  | event (mode : Mode) (e : Event)
  | line (l : Line)
deriving DecidableEq

def Entry.toLine : Entry → Line
  | event mode e => e.line mode
  | line l => l

def Entry.event? : Entry → Option (Mode × Event)
  | event mode e => some (mode, e)
  | line _ => none

/-- A document on its way, with the state of its provisioner. -/
structure Session (σ : Type) where
  document : Document
  env : Environment
  /-- Overrides the mode that the document asks for. -/
  live : Option Bool := none
  phase : RunPhase := .idle
  graph : Graph := {}
  plan? : Option Plan := none
  state : σ
  journal : List Entry := []

namespace Session

variable {σ : Type}

def events (s : Session σ) : List (Mode × Event) := s.journal.filterMap Entry.event?

def lines (s : Session σ) : List Line := s.journal.map Entry.toLine

def context (s : Session σ) : Context :=
  let c := Context.ofVars s.env s.document.vars
  match s.live with
  | none => c
  | some live => c.withFlag (.numeric (if live then 1 else 0))

def emit (s : Session σ) (mode : Mode) (e : Event) : Session σ :=
  { s with journal := s.journal ++ [.event mode e] }

def trace (s : Session σ) (ls : List Line) : Session σ :=
  { s with journal := s.journal ++ ls.map .line }

def enter (s : Session σ) (mode : Mode) (phase : RunPhase) : Session σ :=
  { s with phase := phase }.emit mode (.entered phase)

/-- What the session has by then stays. -/
def fail (s : Session σ) (mode : Mode) (e : Error) : Session σ :=
  (s.enter mode .failed).emit mode (.failed e.message)

/-- Tells what the imports replaced and what resolving walks through. -/
def announced (s : Session σ) : Session σ :=
  (s.document.overrides.foldl (fun s' o => s'.emit s.context.mode (.overridden o)) s).trace
    (Graph.resolveLines s.document)

def resolve (s : Session σ) : Except Error Plan × Session σ :=
  if s.phase = .idle then
    let mode := s.context.mode
    let s := s.announced
    match Graph.resolve s.document with
    | .error e => (.error e, s.fail mode e)
    | .ok graph =>
      let plan := Plan.ofGraph graph
      let s := (s.trace plan.lines).emit mode (.resolved plan.tier plan.size)
      let s := { s with graph := graph }.enter mode .resolved
      (.ok plan, { s with plan? := some plan })
  else (.error (.lifecycle .resolve s.phase), s)

/-- Hands tasks to the provisioner until one fails; `index` is the number of the first. -/
def execute (P : Provisioner σ) (phase : TaskPhase) (c : Context) :
    Nat → List Task → Session σ → Except Error Unit × Session σ
  | _, [], s => (.ok (), s)
  | index, t :: ts, s =>
    let a := P.attempt phase t c s.state
    let s := { s with state := a.state }.trace a.lines
    match a.result with
    | .error e => (.error (.task phase index t.description e), s)
    | .ok () => execute P phase c (index + 1) ts (s.emit c.mode (.passed phase index t.description))

def conclude (mode : Mode) (next : RunPhase) : Except Error Unit × Session σ → Except Error Unit × Session σ
  | (.error e, s) => (.error e, s.fail mode e)
  | (.ok (), s) => (.ok (), s.enter mode next)

/-- Binds the graph and the plan where they are stored. -/
def bound (c : Context) (plan : Plan) (s : Session σ) : Session σ :=
  let traced := s.trace (c.bindLines s.graph ++ plan.bindLines c)
  { traced with graph := c.bind s.env s.graph, plan? := some (plan.bind c s.env) }.emit c.mode
    (.bound (c.bindCount s.env s.graph + plan.bindCount c s.env))

def validate (P : Provisioner σ) (c : Context) (s : Session σ) : Except Error Unit × Session σ :=
  if s.phase = .resolved then
    match s.plan? with
    -- a session that has resolved its document has a plan
    | none => (.error (.lifecycle .validate s.phase), s)
    | some plan =>
      conclude c.mode .validated ((s.bound c plan).execute P .validate c 0 (plan.bind c s.env).tasks)
  else (.error (.lifecycle .validate s.phase), s)

def run (P : Provisioner σ) (c : Context) (s : Session σ) : Except Error Unit × Session σ :=
  if s.phase = .validated then
    match s.plan? with
    | none => (.error (.lifecycle .run s.phase), s)
    | some plan =>
      let s := if plan.isEmpty then s.emit c.mode .nothingToDo else s
      conclude c.mode .applied (s.execute P .run c 0 plan.tasks)
  else (.error (.lifecycle .run s.phase), s)

/-- Reports on the plan that is stored by now. -/
def report (s : Session σ) (mode : Mode) : Report :=
  match s.plan? with
  | none => ⟨.empty, 0, mode⟩
  | some plan => ⟨plan.tier, plan.size, mode⟩

def check (P : Provisioner σ) (s : Session σ) : Except Error Report × Session σ :=
  match s.resolve with
  | (.error e, s) => (.error e, s)
  | (.ok plan, s) =>
    match s.validate P s.context with
    | (.error e, s) => (.error e, s)
    | (.ok (), s) => (.ok ⟨plan.tier, plan.size, s.context.mode⟩, s)

def applying (s : Session σ) : Session σ :=
  s.trace [⟨.info, "applying document",
    [("mode", .text s.context.mode.label), ("vars", .number s.context.size)]⟩]

def apply (P : Provisioner σ) (s : Session σ) : Except Error Report × Session σ :=
  match s.resolve with
  | (.error e, s) => (.error e, s)
  | (.ok _, s) =>
    let c := s.context
    match s.applying.validate P c with
    | (.error e, s) => (.error e, s)
    | (.ok (), s) =>
      match s.run P c with
      | (.error e, s) => (.error e, s)
      | (.ok (), s) => (.ok (s.report c.mode), s)

end Session

end Rollout
