import Rollout.Proofs.Session.Requests

/-! A session keeps its phase, its graph and its plan apart, and changes them one after another. A stage is the
three of them in step: nothing before the document is resolved, a graph and a plan from then on. `Session.At` says
that a session is in step, and the lemmas here that each part of a request leads from one stage to the next. -/

namespace Rollout

variable {σ : Type}

/-- How far a session has come, with the graph and the plan it has by then. -/
inductive Stage where
  | idle
  | resolved (graph : Graph) (plan : Plan)
  | validated (graph : Graph) (plan : Plan)
  | applied (graph : Graph) (plan : Plan)
  /-- A session that fails before it has a graph keeps none. -/
  | failed (reached : Option (Graph × Plan))

namespace Stage

def phase : Stage → RunPhase
  | idle => .idle
  | resolved _ _ => .resolved
  | validated _ _ => .validated
  | applied _ _ => .applied
  | failed _ => .failed

def reached : Stage → Option (Graph × Plan)
  | idle => none
  | resolved g p | validated g p | applied g p => some (g, p)
  | failed r => r

def graph (st : Stage) : Graph := (st.reached.map Prod.fst).getD {}

def plan? (st : Stage) : Option Plan := st.reached.map Prod.snd

def tasks (st : Stage) : List Task := (st.plan?.map Plan.tasks).getD []

end Stage

namespace Session

/-- The tasks of the plan, none before the document is resolved. -/
def tasks (s : Session σ) : List Task := (s.plan?.map Plan.tasks).getD []

/-- The session has the phase, the graph and the plan of the stage. -/
structure At (s : Session σ) (st : Stage) : Prop where
  phase : s.phase = st.phase
  graph : s.graph = st.graph
  plan : s.plan? = st.plan?

theorem start_at (d : Document) (env : Environment) (live : Option Bool) (x : σ) :
    (start d env live x).At .idle := ⟨rfl, rfl, rfl⟩

theorem resolve_keeps {s : Session σ} {g : Graph} (h : s.phase = .idle) (hr : Graph.resolve s.document = .ok g) :
    s.resolve = (.ok (.ofGraph g), s.resolve.2) ∧ s.resolve.2.At (.resolved g (.ofGraph g)) ∧
      s.resolve.2.env = s.env ∧ s.resolve.2.state = s.state ∧ s.resolve.2.context = s.context := by
  rw [resolve_of_resolvable h hr]
  exact ⟨rfl, ⟨rfl, rfl, rfl⟩, rfl, rfl, rfl⟩

/-- A phase changes nothing but the state of the provisioner and the journal. -/
theorem execute_frame (P : Provisioner σ) (phase : TaskPhase) (c : Context) (ts : List Task) :
    ∀ (index : Nat) (s : Session σ), (s.execute P phase c index ts).2 =
      { s with
        state := (s.execute P phase c index ts).2.state
        journal := (s.execute P phase c index ts).2.journal } := by
  induction ts with
  | nil => intro index s; rfl
  | cons t ts ih =>
    intro index s
    cases hr : (P.attempt phase t c s.state).result with
    | error e => rw [execute_cons_error hr]; rfl
    | ok u => rw [execute_cons_ok hr]; exact ih (index + 1) _

namespace At

variable {s : Session σ} {st : Stage}

theorem tasks_eq (h : s.At st) : s.tasks = st.tasks := by
  rw [tasks, h.plan, Stage.tasks]

theorem mapState {τ : Type} (h : s.At st) (f : σ → τ) : (s.mapState f).At st := ⟨h.phase, h.graph, h.plan⟩

theorem reached_of_plan (h : s.At st) {p : Plan} (hp : s.plan? = some p) : st.reached = some (s.graph, p) := by
  rw [h.plan] at hp
  obtain ⟨⟨g, q⟩, hq, rfl⟩ := Option.map_eq_some_iff.1 hp
  simp [h.graph, Stage.graph, hq]

theorem report (h : s.At st) {p : Plan} (hp : st.plan? = some p) (mode : Mode) :
    s.report mode = ⟨p.tier, p.size, mode⟩ := by
  simp [Session.report, h.plan, hp]

/-! Where the phase alone says the stage. -/

theorem of_idle (h : s.At st) (hphase : s.phase = .idle) : st = .idle := by
  cases st <;> simp [h.phase, Stage.phase] at hphase ⊢

theorem of_resolved (h : s.At st) (hphase : s.phase = .resolved) : ∃ g p, st = .resolved g p := by
  cases st <;> simp [h.phase, Stage.phase] at hphase ⊢

theorem of_validated (h : s.At st) (hphase : s.phase = .validated) : ∃ g p, st = .validated g p := by
  cases st <;> simp [h.phase, Stage.phase] at hphase ⊢

/-! From stage to stage. -/

theorem execute (h : s.At st) (P : Provisioner σ) (phase : TaskPhase) (c : Context) (index : Nat)
    (ts : List Task) : (s.execute P phase c index ts).2.At st := by
  rw [execute_frame]
  exact ⟨h.phase, h.graph, h.plan⟩

theorem enter (h : s.At st) {next : Stage} (hnext : next.reached = st.reached) (mode : Mode) :
    (s.enter mode next.phase).At next := by
  refine ⟨rfl, ?_, ?_⟩
  · rw [Stage.graph, hnext]
    exact h.graph
  · rw [Stage.plan?, hnext]
    exact h.plan

theorem applying (h : s.At st) : s.applying.At st := ⟨h.phase, h.graph, h.plan⟩

theorem fail (h : s.At st) (mode : Mode) (e : Error) : (s.fail mode e).At (.failed st.reached) :=
  ⟨rfl, h.graph, h.plan⟩

theorem bound {g : Graph} {p : Plan} (h : s.At (.resolved g p)) (c : Context) :
    (s.bound c p).At (.resolved (c.bind s.env g) (p.bind c s.env)) :=
  ⟨h.phase, congrArg (c.bind s.env) h.graph, rfl⟩

theorem conclude {r : Except Error Unit × Session σ} (h : r.2.At st) (hok : r.1 = .ok ()) (next : Stage)
    (hnext : next.reached = st.reached) (mode : Mode) : (conclude mode next.phase r).2.At next := by
  obtain ⟨o, s⟩ := r
  obtain rfl : o = .ok () := hok
  exact h.enter hnext mode

/-- The note that there is nothing to do changes no stage. -/
theorem noted {g : Graph} {p : Plan} (h : s.At (.validated g p)) (c : Context) :
    (if p.isEmpty then s.emit c.mode .nothingToDo else s).At (.validated g p) := by
  split <;> exact ⟨h.phase, h.graph, h.plan⟩

end At

end Session

end Rollout
