import Rollout.Session.Basic

/-! Sequences of requests to one session, and provisioners that keep a record of their calls. A provisioner
whose states are the image of another's answers every sequence of requests the same, so what a record shows
is what the provisioner itself is called with. -/

namespace Rollout

variable {σ τ : Type}

namespace Session

inductive Request where
  | resolve
  | validate (c : Context)
  | run (c : Context)
  | apply

inductive Reply where
  | plan (p : Plan)
  | done
  | report (r : Report)

def perform (P : Provisioner σ) (s : Session σ) : Request → Except Error Reply × Session σ
  | .resolve => (s.resolve.1.map .plan, s.resolve.2)
  | .validate c => ((s.validate P c).1.map fun _ => .done, (s.validate P c).2)
  | .run c => ((s.run P c).1.map fun _ => .done, (s.run P c).2)
  | .apply => ((s.apply P).1.map .report, (s.apply P).2)

/-- The session after some requests, whatever their answers. -/
def performAll (P : Provisioner σ) (s : Session σ) (rs : List Request) : Session σ :=
  rs.foldl (fun s r => (s.perform P r).2) s

def start (d : Document) (env : Environment) (live : Option Bool) (state : σ) : Session σ :=
  { document := d, env := env, live := live, state := state }

theorem performAll_cons (P : Provisioner σ) (s : Session σ) (r : Request) (rs : List Request) :
    s.performAll P (r :: rs) = (s.perform P r).2.performAll P rs := rfl

/-! ### One task after another -/

/-- The session after one call of the provisioner, before anything is said about it. -/
def handed (P : Provisioner σ) (phase : TaskPhase) (c : Context) (t : Task) (s : Session σ) : Session σ :=
  { s with state := (P.attempt phase t c s.state).state }.trace (P.attempt phase t c s.state).lines

theorem execute_cons_error {P : Provisioner σ} {phase : TaskPhase} {c : Context} {t : Task} {s : Session σ}
    {e : TaskError} (h : (P.attempt phase t c s.state).result = .error e) (index : Nat) (ts : List Task) :
    s.execute P phase c index (t :: ts) =
      (.error (.task phase index t.description e), s.handed P phase c t) := by
  unfold execute
  simp only [h]
  rfl

theorem execute_cons_ok {P : Provisioner σ} {phase : TaskPhase} {c : Context} {t : Task} {s : Session σ}
    (h : (P.attempt phase t c s.state).result = .ok ()) (index : Nat) (ts : List Task) :
    s.execute P phase c index (t :: ts) =
      ((s.handed P phase c t).emit c.mode (.passed phase index t.description)).execute P phase c
        (index + 1) ts := by
  rw [execute]
  simp only [h]
  rfl

/-! ### In its phase and out of it -/

theorem refused_or_planned (s : Session σ) (phase : RunPhase) :
    (s.phase ≠ phase ∨ s.plan? = none) ∨ s.phase = phase ∧ ∃ p, s.plan? = some p := by
  by_cases hs : s.phase = phase
  · cases hp : s.plan? with
    | none => exact .inl (.inr rfl)
    | some p => exact .inr ⟨hs, p, rfl⟩
  · exact .inl (.inl hs)

theorem resolve_refused {s : Session σ} (h : s.phase ≠ .idle) :
    s.resolve = (.error (.lifecycle .resolve s.phase), s) := by
  simp [resolve, h]

theorem validate_of_resolved {s : Session σ} {p : Plan} (h : s.phase = .resolved) (hp : s.plan? = some p)
    (P : Provisioner σ) (c : Context) :
    s.validate P c =
      conclude c.mode .validated ((s.bound c p).execute P .validate c 0 (p.bind c s.env).tasks) := by
  simp [validate, h, hp]

theorem validate_refused {s : Session σ} (h : s.phase ≠ .resolved ∨ s.plan? = none) (P : Provisioner σ)
    (c : Context) : s.validate P c = (.error (.lifecycle .validate s.phase), s) := by
  rcases h with h | h <;> simp [validate, h]

theorem run_of_validated {s : Session σ} {p : Plan} (h : s.phase = .validated) (hp : s.plan? = some p)
    (P : Provisioner σ) (c : Context) :
    s.run P c = conclude c.mode .applied
      ((if p.isEmpty then s.emit c.mode .nothingToDo else s).execute P .run c 0 p.tasks) := by
  simp [run, h, hp]

theorem run_refused {s : Session σ} (h : s.phase ≠ .validated ∨ s.plan? = none) (P : Provisioner σ)
    (c : Context) : s.run P c = (.error (.lifecycle .run s.phase), s) := by
  rcases h with h | h <;> simp [run, h]

theorem apply_of_unresolved {s s₁ : Session σ} {e : Error} (h : s.resolve = (.error e, s₁))
    (P : Provisioner σ) : s.apply P = (.error e, s₁) := by
  simp [apply, h]

theorem apply_of_invalid {P : Provisioner σ} {s s₁ s₂ : Session σ} {p : Plan} {e : Error}
    (h₁ : s.resolve = (.ok p, s₁)) (h₂ : s₁.applying.validate P s₁.context = (.error e, s₂)) :
    s.apply P = (.error e, s₂) := by
  simp only [apply, h₁, h₂]

theorem apply_of_validated {P : Provisioner σ} {s s₁ s₂ : Session σ} {p : Plan}
    (h₁ : s.resolve = (.ok p, s₁)) (h₂ : s₁.applying.validate P s₁.context = (.ok (), s₂)) :
    s.apply P = ((s₂.run P s₁.context).1.map fun _ => (s₂.run P s₁.context).2.report s₁.context.mode,
      (s₂.run P s₁.context).2) := by
  simp only [apply, h₁, h₂]
  rcases s₂.run P s₁.context with ⟨_ | _, s₃⟩ <;> rfl

/-! ### Changing the states of the provisioner -/

def mapState (f : σ → τ) (s : Session σ) : Session τ :=
  ⟨s.document, s.env, s.live, s.phase, s.graph, s.plan?, f s.state, s.journal⟩

end Session

/-- `Q` does on the image of a state what `P` does on the state. -/
def Provisioner.Carries (f : σ → τ) (P : Provisioner σ) (Q : Provisioner τ) : Prop :=
  ∀ phase t c x, Q.attempt phase t c (f x) =
    ⟨(P.attempt phase t c x).result, f (P.attempt phase t c x).state, (P.attempt phase t c x).lines⟩

namespace Session

/-- Announcing what imports replaced only adds to the journal. -/
theorem foldl_emit_overridden (mode : Mode) (os : List Override) (s : Session σ) :
    os.foldl (fun s o => s.emit mode (.overridden o)) s =
      { s with journal := s.journal ++ os.map fun o => .event mode (.overridden o) } := by
  induction os generalizing s with
  | nil => simp
  | cons o os ih =>
    rw [List.foldl_cons, ih]
    simp [emit]

theorem announced_frame (s : Session σ) : s.announced = { s with journal := s.announced.journal } := by
  simp only [announced, foldl_emit_overridden]
  rfl

theorem announced_mapState (f : σ → τ) (s : Session σ) :
    (s.mapState f).announced = s.announced.mapState f := by
  simp only [announced, foldl_emit_overridden]
  rfl

theorem resolve_eq_fail {s : Session σ} {e : Error} (h : s.phase = .idle)
    (hr : Graph.resolve s.document = .error e) :
    s.resolve = (.error e, s.announced.fail s.context.mode e) := by
  have hr' : Graph.resolve s.announced.document = .error e := by rwa [announced_frame]
  simp [resolve, h, hr']

/-- The session past resolving the document to a graph. -/
def resolvedTo (g : Graph) (s : Session σ) : Session σ :=
  let s' := (s.announced.trace (Plan.ofGraph g).lines).emit s.context.mode
    (.resolved (Plan.ofGraph g).tier (Plan.ofGraph g).size)
  { { s' with graph := g }.enter s.context.mode .resolved with plan? := some (.ofGraph g) }

theorem resolve_eq_resolvedTo {s : Session σ} {g : Graph} (h : s.phase = .idle)
    (hr : Graph.resolve s.document = .ok g) : s.resolve = (.ok (.ofGraph g), s.resolvedTo g) := by
  have hr' : Graph.resolve s.announced.document = .ok g := by rwa [announced_frame]
  simp [resolve, h, hr', resolvedTo]

/-! Resolving an idle session changes its phase and its journal, fills in graph and plan, and nothing else. -/

theorem resolve_of_unresolvable {s : Session σ} {e : Error} (h : s.phase = .idle)
    (hr : Graph.resolve s.document = .error e) :
    s.resolve = (.error e, { s with journal := s.resolve.2.journal, phase := .failed }) := by
  rw [resolve_eq_fail h hr, announced_frame]
  rfl

theorem resolve_of_resolvable {s : Session σ} {g : Graph} (h : s.phase = .idle)
    (hr : Graph.resolve s.document = .ok g) :
    s.resolve = (.ok (.ofGraph g), { s with
      journal := s.resolve.2.journal, phase := .resolved, graph := g, plan? := some (.ofGraph g) }) := by
  rw [resolve_eq_resolvedTo h hr, resolvedTo, announced_frame]
  rfl

theorem resolve_mapState (f : σ → τ) (s : Session σ) :
    (s.mapState f).resolve = (s.resolve.1, s.resolve.2.mapState f) := by
  by_cases h : s.phase = .idle
  · have h' : (s.mapState f).phase = .idle := h
    cases hr : Graph.resolve s.document with
    | error e =>
      rw [resolve_eq_fail h hr, resolve_eq_fail h' hr, announced_mapState]
      rfl
    | ok g =>
      rw [resolve_eq_resolvedTo h hr, resolve_eq_resolvedTo h' hr, resolvedTo, announced_mapState]
      rfl
  · have h' : (s.mapState f).phase ≠ .idle := h
    rw [resolve_refused h, resolve_refused h']
    rfl

variable {f : σ → τ} {P : Provisioner σ} {Q : Provisioner τ}

theorem handed_mapState (h : P.Carries f Q) (phase : TaskPhase) (c : Context) (t : Task) (s : Session σ) :
    (s.mapState f).handed Q phase c t = (s.handed P phase c t).mapState f := by
  have ha : Q.attempt phase t c (s.mapState f).state = _ := h phase t c s.state
  unfold handed
  rw [ha]
  rfl

theorem execute_mapState (h : P.Carries f Q) (phase : TaskPhase) (c : Context) (ts : List Task) :
    ∀ (index : Nat) (s : Session σ), (s.mapState f).execute Q phase c index ts =
      ((s.execute P phase c index ts).1, (s.execute P phase c index ts).2.mapState f) := by
  induction ts with
  | nil => intro index s; rfl
  | cons t ts ih =>
    intro index s
    have ha : (Q.attempt phase t c (s.mapState f).state).result = (P.attempt phase t c s.state).result := by
      rw [show (s.mapState f).state = f s.state from rfl, h phase t c s.state]
    cases hr : (P.attempt phase t c s.state).result with
    | error e =>
      rw [execute_cons_error (ha.trans hr), execute_cons_error hr, handed_mapState h]
    | ok u =>
      rw [execute_cons_ok (ha.trans hr), execute_cons_ok hr, handed_mapState h]
      exact ih (index + 1) ((s.handed P phase c t).emit c.mode (.passed phase index t.description))

theorem conclude_mapState (mode : Mode) (next : RunPhase) (r : Except Error Unit × Session σ) :
    conclude mode next (r.1, r.2.mapState f) =
      ((conclude mode next r).1, (conclude mode next r).2.mapState f) := by
  obtain ⟨_ | _, s⟩ := r <;> rfl

theorem validate_mapState (h : P.Carries f Q) (c : Context) (s : Session σ) :
    (s.mapState f).validate Q c = ((s.validate P c).1, (s.validate P c).2.mapState f) := by
  rcases s.refused_or_planned .resolved with hs | ⟨hs, p, hp⟩
  · have hs' : (s.mapState f).phase ≠ .resolved ∨ (s.mapState f).plan? = none := hs
    rw [validate_refused hs, validate_refused hs']
    rfl
  · have hs' : (s.mapState f).phase = .resolved := hs
    have hp' : (s.mapState f).plan? = some p := hp
    rw [validate_of_resolved hs hp, validate_of_resolved hs' hp', ← conclude_mapState, ← execute_mapState h]
    rfl

theorem run_mapState (h : P.Carries f Q) (c : Context) (s : Session σ) :
    (s.mapState f).run Q c = ((s.run P c).1, (s.run P c).2.mapState f) := by
  rcases s.refused_or_planned .validated with hs | ⟨hs, p, hp⟩
  · have hs' : (s.mapState f).phase ≠ .validated ∨ (s.mapState f).plan? = none := hs
    rw [run_refused hs, run_refused hs']
    rfl
  · have hs' : (s.mapState f).phase = .validated := hs
    have hp' : (s.mapState f).plan? = some p := hp
    rw [run_of_validated hs hp, run_of_validated hs' hp', ← conclude_mapState, ← execute_mapState h]
    split <;> rfl

theorem apply_mapState (h : P.Carries f Q) (s : Session σ) :
    (s.mapState f).apply Q = ((s.apply P).1, (s.apply P).2.mapState f) := by
  have h₁' := resolve_mapState f s
  rcases h₁ : s.resolve with ⟨e | p, s₁⟩
  · rw [h₁] at h₁'
    rw [apply_of_unresolved h₁', apply_of_unresolved h₁]
  rw [h₁] at h₁'
  have h₂' := validate_mapState h s₁.context s₁.applying
  rcases h₂ : s₁.applying.validate P s₁.context with ⟨e | u, s₂⟩
  · rw [h₂] at h₂'
    rw [apply_of_invalid h₁' h₂', apply_of_invalid h₁ h₂]
  · rw [h₂] at h₂'
    rw [apply_of_validated h₁' h₂', apply_of_validated h₁ h₂]
    change (((s₂.mapState f).run Q s₁.context).1.map fun _ =>
      ((s₂.mapState f).run Q s₁.context).2.report s₁.context.mode,
        ((s₂.mapState f).run Q s₁.context).2) = _
    rw [run_mapState h]
    rfl

/-- A provisioner that another one carries answers every request the same. -/
theorem perform_mapState (h : P.Carries f Q) (s : Session σ) (r : Request) :
    (s.mapState f).perform Q r = ((s.perform P r).1, (s.perform P r).2.mapState f) := by
  cases r with
  | resolve => simp only [perform, resolve_mapState]
  | validate c => simp only [perform, validate_mapState h]
  | run c => simp only [perform, run_mapState h]
  | apply => simp only [perform, apply_mapState h]

theorem performAll_mapState (h : P.Carries f Q) (s : Session σ) (rs : List Request) :
    (s.mapState f).performAll Q rs = (s.performAll P rs).mapState f := by
  induction rs generalizing s with
  | nil => rfl
  | cons r rs ih => rw [performAll_cons, performAll_cons, perform_mapState h, ih]

end Session

/-! ### Keeping a record -/

/-- A call of a provisioner and how it ended. -/
structure Call where
  phase : TaskPhase
  task : Task
  context : Context
  result : Except TaskError Unit

/-- A provisioner's own state and every call so far, the first one first. -/
structure Recorded (σ : Type) where
  inner : σ
  calls : List Call := []

/-- Does what `P` does and writes down each call. -/
def Provisioner.recorded (P : Provisioner σ) : Provisioner (Recorded σ) where
  attempt phase t c x :=
    let a := P.attempt phase t c x.inner
    ⟨a.result, ⟨a.state, x.calls ++ [⟨phase, t, c, a.result⟩]⟩, a.lines⟩

theorem Provisioner.recorded_carries (P : Provisioner σ) : P.recorded.Carries Recorded.inner P := by
  intro phase t c x
  rfl

end Rollout
