import Rollout.Proofs.Session.Stage

/-! Two phases, whatever is asked of a session and in whatever order: every task of the plan is validated
before any is run, each at most once and in the order of the plan, and nothing is called after a failure. The
calls of a session are a function of how far it has come, which `Logged` says stage by stage; `Moves` is
everything that a request can do to the two. Who listens to a session hears the events of its journal, which
no request reads. -/

namespace Rollout

variable {σ : Type}

/-- Whether a request went well, without its answer. -/
def verdict {α : Type} (x : Except Error α) : Except Error Unit := x.map fun _ => ()

@[simp] theorem verdict_map {α β : Type} (f : α → β) (x : Except Error α) :
    verdict (x.map f) = verdict x := by
  cases x <;> rfl

@[simp] theorem verdict_unit (x : Except Error Unit) : verdict x = x := by
  cases x <;> rfl

theorem verdict_eq_error {α : Type} {x : Except Error α} {e : Error} :
    verdict x = .error e ↔ x = .error e := by
  cases x <;> simp [verdict, Except.map]

namespace Call

def passed (phase : TaskPhase) (c : Context) (ts : List Task) : List Call :=
  ts.map fun t => ⟨phase, t, c, .ok ()⟩

def ofPhase (phase : TaskPhase) (calls : List Call) : List Call :=
  calls.filter fun a => a.phase = phase

theorem ofPhase_append (phase : TaskPhase) (xs ys : List Call) :
    ofPhase phase (xs ++ ys) = ofPhase phase xs ++ ofPhase phase ys :=
  List.filter_append ..

theorem ofPhase_eq_self {phase : TaskPhase} {calls : List Call} (h : ∀ a ∈ calls, a.phase = phase) :
    ofPhase phase calls = calls :=
  List.filter_eq_self.2 fun a ha => decide_eq_true (h a ha)

theorem ofPhase_eq_nil {phase other : TaskPhase} (hne : other ≠ phase) {calls : List Call}
    (h : ∀ a ∈ calls, a.phase = other) : ofPhase phase calls = [] := by
  refine List.filter_eq_nil_iff.2 fun a ha => ?_
  rw [h a ha]
  simpa using hne

theorem of_mem_passed {phase : TaskPhase} {c : Context} {ts : List Task} {a : Call}
    (h : a ∈ passed phase c ts) : a.phase = phase ∧ a.context = c ∧ a.result = .ok () := by
  obtain ⟨t, -, rfl⟩ := List.mem_map.1 h
  exact ⟨rfl, rfl, rfl⟩

theorem tasks_passed (phase : TaskPhase) (c : Context) (ts : List Task) :
    (passed phase c ts).map task = ts := by
  simp [passed, Function.comp_def]

end Call

open Call

/-- The calls of a phase over `ts`, whose first task has the number `index`, and what comes of them: all went
well, or the last one failed. -/
inductive PhaseCalls (phase : TaskPhase) (c : Context) (index : Nat) (ts : List Task) :
    Except Error Unit → List Call → Prop
  | all : PhaseCalls phase c index ts (.ok ()) (passed phase c ts)
  | halted (before : List Task) (t : Task) (after : List Task) (e : TaskError)
      (h : ts = before ++ t :: after) :
    PhaseCalls phase c index ts (.error (.task phase (index + before.length) t.description e))
      (passed phase c before ++ [⟨phase, t, c, .error e⟩])

namespace PhaseCalls

variable {phase : TaskPhase} {c : Context} {index : Nat} {ts : List Task} {o : Except Error Unit}
  {calls : List Call}

theorem cons (t : Task) (h : PhaseCalls phase c (index + 1) ts o calls) :
    PhaseCalls phase c index (t :: ts) o (⟨phase, t, c, .ok ()⟩ :: calls) := by
  cases h with
  | all => exact all
  | halted before u after e h =>
    have hi : index + 1 + before.length = index + (t :: before).length := by
      rw [List.length_cons]
      omega
    rw [hi]
    exact halted (t :: before) u after e (by rw [h]; rfl)

theorem eq_passed (h : PhaseCalls phase c index ts (.ok ()) calls) : calls = passed phase c ts := by
  cases h
  rfl

theorem of_mem (h : PhaseCalls phase c index ts o calls) :
    ∀ a ∈ calls, a.phase = phase ∧ a.context = c := by
  intro a ha
  cases h with
  | all => exact (of_mem_passed ha).imp id And.left
  | halted before t after e _ =>
    rcases List.mem_append.1 ha with ha | ha
    · exact (of_mem_passed ha).imp id And.left
    · rw [List.mem_singleton.1 ha]
      exact ⟨rfl, rfl⟩

theorem phase_of_mem (h : PhaseCalls phase c index ts o calls) : ∀ a ∈ calls, a.phase = phase :=
  fun a ha => (h.of_mem a ha).1

theorem tasks_ordered (h : PhaseCalls phase c index ts o calls) : calls.map task <+: ts := by
  cases h with
  | all => exact ⟨[], by simp [tasks_passed]⟩
  | halted before t after e h =>
    rw [List.map_append, tasks_passed, h]
    exact ⟨after, by simp⟩

theorem result_of_mem_dropLast (h : PhaseCalls phase c index ts o calls) :
    ∀ a ∈ calls.dropLast, a.result = .ok () := by
  intro a ha
  cases h with
  | all => exact (of_mem_passed (List.dropLast_subset _ ha)).2.2
  | halted before t after e _ =>
    rw [List.dropLast_concat] at ha
    exact (of_mem_passed ha).2.2

/-- A call that failed is what the phase reports, with its number in the phase. -/
theorem error_of_mem (h : PhaseCalls phase c index ts o calls) {a : Call} (ha : a ∈ calls) {e : TaskError}
    (he : a.result = .error e) :
    ∃ k, calls[k]? = some a ∧ o = .error (.task phase (index + k) a.task.description e) := by
  cases h with
  | all =>
    rw [(of_mem_passed ha).2.2] at he
    cases he
  | halted before t after e' _ =>
    rcases List.mem_append.1 ha with ha | ha
    · rw [(of_mem_passed ha).2.2] at he
      cases he
    · rw [List.mem_singleton] at ha
      subst ha
      cases he
      refine ⟨before.length, ?_, rfl⟩
      rw [List.getElem?_append_right (by simp [passed])]
      simp [passed]

/-! The phases of the calls that validate every task and go on to run. -/

theorem ofPhase_validate {c' : Context} (h : PhaseCalls .run c' 0 ts o calls) :
    ofPhase .validate (passed .validate c ts ++ calls) = passed .validate c ts := by
  rw [ofPhase_append, ofPhase_eq_self fun _ ha => (of_mem_passed ha).1,
    ofPhase_eq_nil (by decide) h.phase_of_mem, List.append_nil]

theorem ofPhase_run {c' : Context} (h : PhaseCalls .run c' 0 ts o calls) :
    ofPhase .run (passed .validate c ts ++ calls) = calls := by
  rw [ofPhase_append, ofPhase_eq_nil (by decide) fun _ ha => (of_mem_passed ha).1,
    ofPhase_eq_self h.phase_of_mem, List.nil_append]

end PhaseCalls

namespace Session

theorem execute_calls (P : Provisioner σ) (phase : TaskPhase) (c : Context) (ts : List Task) :
    ∀ (index : Nat) (s : Session (Recorded σ)), ∃ calls,
      PhaseCalls phase c index ts (s.execute P.recorded phase c index ts).1 calls ∧
        (s.execute P.recorded phase c index ts).2.state.calls = s.state.calls ++ calls := by
  induction ts with
  | nil =>
    intro index s
    exact ⟨[], .all, by simp [execute]⟩
  | cons t ts ih =>
    intro index s
    cases hr : (P.attempt phase t c s.state.inner).result with
    | error e =>
      have hr' : (P.recorded.attempt phase t c s.state).result = .error e := hr
      refine ⟨[⟨phase, t, c, .error e⟩], ?_, ?_⟩
      · rw [execute_cons_error hr']
        exact .halted [] t ts e rfl
      · rw [execute_cons_error hr', ← hr]
        rfl
    | ok u =>
      have hr' : (P.recorded.attempt phase t c s.state).result = .ok () := hr
      obtain ⟨calls, hp, hc⟩ := ih (index + 1)
        ((s.handed P.recorded phase c t).emit c.mode (.passed phase index t.description))
      refine ⟨⟨phase, t, c, .ok ()⟩ :: calls, ?_, ?_⟩
      · rw [execute_cons_ok hr']
        exact hp.cons t
      · rw [execute_cons_ok hr', hc]
        simp [emit, handed, trace, Provisioner.recorded, hr]

/-- A phase with its end: the calls it makes, what it answers and where it leads. -/
theorem conclude_execute_calls (P : Provisioner σ) (phase : TaskPhase) (c : Context) (ts : List Task)
    {s : Session (Recorded σ)} {st : Stage} (h : s.At st) (next : Stage) (hnext : next.reached = st.reached) :
    ∃ calls s', s'.state.calls = s.state.calls ++ calls ∧
      ((conclude c.mode next.phase (s.execute P.recorded phase c 0 ts) = (.ok (), s') ∧
          calls = passed phase c ts ∧ s'.At next) ∨
        ∃ e, conclude c.mode next.phase (s.execute P.recorded phase c 0 ts) = (.error e, s') ∧
          PhaseCalls phase c 0 ts (.error e) calls ∧ s'.At (.failed st.reached)) := by
  obtain ⟨calls, hp, hc⟩ := execute_calls P phase c ts 0 s
  have hat := h.execute P.recorded phase c 0 ts
  rcases hx : s.execute P.recorded phase c 0 ts with ⟨e | u, s₁⟩
  · rw [hx] at hp hc hat
    exact ⟨calls, s₁.fail c.mode e, hc, .inr ⟨e, rfl, hp, hat.fail c.mode e⟩⟩
  · rw [hx] at hp hc hat
    exact ⟨calls, s₁.enter c.mode next.phase, hc, .inl ⟨rfl, hp.eq_passed, hat.enter hnext c.mode⟩⟩

end Session

/-! ### What a request can do -/

/-- The moves of a session with the document `d`: what is answered, and how the stage and the calls change.
Several moves in a row may answer one request. -/
inductive Moves (d : Document) (env : Environment) :
    Stage → List Call → Except Error Unit → Stage → List Call → Prop
  | refused (op : Operation) (stage : Stage) (log : List Call) :
    Moves d env stage log (.error (.lifecycle op stage.phase)) stage log
  | unresolvable {e : Error} (log : List Call) (h : Graph.resolve d = .error e) :
    Moves d env .idle log (.error e) (.failed none) log
  | resolved {g : Graph} (log : List Call) (h : Graph.resolve d = .ok g) :
    Moves d env .idle log (.ok ()) (.resolved g (.ofGraph g)) log
  | validated (c : Context) (g : Graph) (p : Plan) (log : List Call) :
    Moves d env (.resolved g p) log (.ok ()) (.validated (c.bind env g) (p.bind c env))
      (log ++ passed .validate c (p.bind c env).tasks)
  | invalid {c : Context} {p : Plan} {e : Error} {calls : List Call} (g : Graph) (log : List Call)
      (h : PhaseCalls .validate c 0 (p.bind c env).tasks (.error e) calls) :
    Moves d env (.resolved g p) log (.error e) (.failed (some (c.bind env g, p.bind c env))) (log ++ calls)
  | applied (c : Context) (g : Graph) (p : Plan) (log : List Call) :
    Moves d env (.validated g p) log (.ok ()) (.applied g p) (log ++ passed .run c p.tasks)
  | broken {c : Context} {p : Plan} {e : Error} {calls : List Call} (g : Graph) (log : List Call)
      (h : PhaseCalls .run c 0 p.tasks (.error e) calls) :
    Moves d env (.validated g p) log (.error e) (.failed (some (g, p))) (log ++ calls)
  | seq {st₁ st₂ st₃ : Stage} {log₁ log₂ log₃ : List Call} {o : Except Error Unit}
      (h₁ : Moves d env st₁ log₁ (.ok ()) st₂ log₂) (h₂ : Moves d env st₂ log₂ o st₃ log₃) :
    Moves d env st₁ log₁ o st₃ log₃

namespace Session

theorem resolve_moves {s : Session (Recorded σ)} {st : Stage} (h : s.At st) :
    ∃ st', s.resolve.2.At st' ∧
      Moves s.document s.env st s.state.calls (verdict s.resolve.1) st' s.resolve.2.state.calls := by
  by_cases hphase : s.phase = .idle
  · obtain rfl := h.of_idle hphase
    cases hr : Graph.resolve s.document with
    | error e =>
      rw [resolve_of_unresolvable hphase hr]
      exact ⟨.failed none, ⟨rfl, h.graph, h.plan⟩, .unresolvable s.state.calls hr⟩
    | ok g =>
      rw [resolve_of_resolvable hphase hr]
      exact ⟨_, ⟨rfl, rfl, rfl⟩, .resolved s.state.calls hr⟩
  · rw [resolve_refused hphase, h.phase]
    exact ⟨st, h, .refused .resolve st s.state.calls⟩

theorem validate_calls (P : Provisioner σ) (c : Context) {s : Session (Recorded σ)} {g : Graph} {p : Plan}
    (h : s.At (.resolved g p)) :
    ∃ calls s', s'.state.calls = s.state.calls ++ calls ∧
      ((s.validate P.recorded c = (.ok (), s') ∧ calls = passed .validate c (p.bind c s.env).tasks ∧
          s'.At (.validated (c.bind s.env g) (p.bind c s.env))) ∨
        ∃ e, s.validate P.recorded c = (.error e, s') ∧
          PhaseCalls .validate c 0 (p.bind c s.env).tasks (.error e) calls ∧
          s'.At (.failed (some (c.bind s.env g, p.bind c s.env)))) := by
  rw [validate_of_resolved h.phase h.plan]
  exact conclude_execute_calls P .validate c (p.bind c s.env).tasks (h.bound c) (.validated _ _) rfl

theorem run_calls (P : Provisioner σ) (c : Context) {s : Session (Recorded σ)} {g : Graph} {p : Plan}
    (h : s.At (.validated g p)) :
    ∃ calls s', s'.state.calls = s.state.calls ++ calls ∧
      ((s.run P.recorded c = (.ok (), s') ∧ calls = passed .run c p.tasks ∧ s'.At (.applied g p)) ∨
        ∃ e, s.run P.recorded c = (.error e, s') ∧ PhaseCalls .run c 0 p.tasks (.error e) calls ∧
          s'.At (.failed (some (g, p)))) := by
  have hstate : (if p.isEmpty then s.emit c.mode .nothingToDo else s).state = s.state := by
    split <;> rfl
  rw [run_of_validated h.phase h.plan, ← hstate]
  exact conclude_execute_calls P .run c p.tasks (h.noted c) (.applied g p) rfl

theorem validate_moves (P : Provisioner σ) (c : Context) {s : Session (Recorded σ)} {st : Stage} (h : s.At st) :
    ∃ st', (s.validate P.recorded c).2.At st' ∧
      Moves s.document s.env st s.state.calls (s.validate P.recorded c).1 st'
        (s.validate P.recorded c).2.state.calls := by
  by_cases hphase : s.phase = .resolved
  · obtain ⟨g, p, rfl⟩ := h.of_resolved hphase
    obtain ⟨calls, s', hc, ⟨hv, rfl, hs'⟩ | ⟨e, hv, hp, hs'⟩⟩ := validate_calls P c h
    · rw [hv, hc]
      exact ⟨_, hs', .validated c g p s.state.calls⟩
    · rw [hv, hc]
      exact ⟨_, hs', .invalid g s.state.calls hp⟩
  · rw [validate_refused (.inl hphase), h.phase]
    exact ⟨st, h, .refused .validate st s.state.calls⟩

theorem run_moves (P : Provisioner σ) (c : Context) {s : Session (Recorded σ)} {st : Stage} (h : s.At st) :
    ∃ st', (s.run P.recorded c).2.At st' ∧
      Moves s.document s.env st s.state.calls (s.run P.recorded c).1 st' (s.run P.recorded c).2.state.calls := by
  by_cases hphase : s.phase = .validated
  · obtain ⟨g, p, rfl⟩ := h.of_validated hphase
    obtain ⟨calls, s', hc, ⟨hr, rfl, hs'⟩ | ⟨e, hr, hp, hs'⟩⟩ := run_calls P c h
    · rw [hr, hc]
      exact ⟨_, hs', .applied c g p s.state.calls⟩
    · rw [hr, hc]
      exact ⟨_, hs', .broken g s.state.calls hp⟩
  · rw [run_refused (.inl hphase), h.phase]
    exact ⟨st, h, .refused .run st s.state.calls⟩

/-! What stays as it is through every request: the document and the environment. -/

theorem resolve_frame (s : Session σ) :
    s.resolve.2.document = s.document ∧ s.resolve.2.env = s.env := by
  by_cases h : s.phase = .idle
  · cases hr : Graph.resolve s.document with
    | error e => rw [resolve_of_unresolvable h hr]; exact ⟨rfl, rfl⟩
    | ok g => rw [resolve_of_resolvable h hr]; exact ⟨rfl, rfl⟩
  · rw [resolve_refused h]
    exact ⟨rfl, rfl⟩

theorem conclude_frame (mode : Mode) (next : RunPhase) (r : Except Error Unit × Session σ) :
    (conclude mode next r).2.document = r.2.document ∧ (conclude mode next r).2.env = r.2.env := by
  obtain ⟨_ | _, s⟩ := r <;> exact ⟨rfl, rfl⟩

theorem validate_frame (P : Provisioner σ) (c : Context) (s : Session σ) :
    (s.validate P c).2.document = s.document ∧ (s.validate P c).2.env = s.env := by
  rcases s.refused_or_planned .resolved with h | ⟨h, p, hp⟩
  · rw [validate_refused h]
    exact ⟨rfl, rfl⟩
  · rw [validate_of_resolved h hp, (conclude_frame ..).1, (conclude_frame ..).2, execute_frame]
    exact ⟨rfl, rfl⟩

theorem run_frame (P : Provisioner σ) (c : Context) (s : Session σ) :
    (s.run P c).2.document = s.document ∧ (s.run P c).2.env = s.env := by
  rcases s.refused_or_planned .validated with h | ⟨h, p, hp⟩
  · rw [run_refused h]
    exact ⟨rfl, rfl⟩
  · rw [run_of_validated h hp, (conclude_frame ..).1, (conclude_frame ..).2, execute_frame]
    split <;> exact ⟨rfl, rfl⟩

theorem apply_frame (P : Provisioner σ) (s : Session σ) :
    (s.apply P).2.document = s.document ∧ (s.apply P).2.env = s.env := by
  have f₁ := resolve_frame s
  rcases h₁ : s.resolve with ⟨e | p, s₁⟩
  · rw [h₁] at f₁
    rwa [apply_of_unresolved h₁]
  rw [h₁] at f₁
  have f₂ := validate_frame P s₁.context s₁.applying
  rw [show s₁.applying.document = s.document from f₁.1, show s₁.applying.env = s.env from f₁.2] at f₂
  rcases h₂ : s₁.applying.validate P s₁.context with ⟨e | u, s₂⟩
  · rw [h₂] at f₂
    rwa [apply_of_invalid h₁ h₂]
  · rw [h₂] at f₂
    rw [apply_of_validated h₁ h₂, (run_frame ..).1, (run_frame ..).2]
    exact f₂

theorem perform_frame (P : Provisioner σ) (s : Session σ) (r : Request) :
    (s.perform P r).2.document = s.document ∧ (s.perform P r).2.env = s.env := by
  cases r with
  | resolve => exact resolve_frame s
  | validate c => exact validate_frame P c s
  | run c => exact run_frame P c s
  | apply => exact apply_frame P s

/-- Applying is resolving, validating and running in a row, up to the first that does not go well. -/
theorem apply_moves (P : Provisioner σ) {s : Session (Recorded σ)} {st : Stage} (h : s.At st) :
    ∃ st', (s.apply P.recorded).2.At st' ∧
      Moves s.document s.env st s.state.calls (verdict (s.apply P.recorded).1) st'
        (s.apply P.recorded).2.state.calls := by
  obtain ⟨st₁, hst₁, m₁⟩ := resolve_moves h
  obtain ⟨hd₁, he₁⟩ := resolve_frame s
  rcases h₁ : s.resolve with ⟨e | p, s₁⟩
  · rw [h₁] at hst₁ m₁
    rw [apply_of_unresolved h₁]
    exact ⟨st₁, hst₁, m₁⟩
  rw [h₁] at hst₁ m₁ hd₁ he₁
  obtain ⟨st₂, hst₂, m₂⟩ := validate_moves P s₁.context hst₁.applying
  obtain ⟨hd₂, he₂⟩ := validate_frame P.recorded s₁.context s₁.applying
  rw [show s₁.applying.document = s.document from hd₁] at m₂ hd₂
  rw [show s₁.applying.env = s.env from he₁] at m₂ he₂
  rcases h₂ : s₁.applying.validate P.recorded s₁.context with ⟨e | u, s₂⟩
  · rw [h₂] at hst₂ m₂
    rw [apply_of_invalid h₁ h₂]
    exact ⟨st₂, hst₂, m₁.seq m₂⟩
  rw [h₂] at hst₂ m₂ hd₂ he₂
  obtain ⟨st₃, hst₃, m₃⟩ := run_moves P s₁.context hst₂
  rw [hd₂, he₂] at m₃
  rw [apply_of_validated h₁ h₂, verdict_map, verdict_unit]
  exact ⟨st₃, hst₃, (m₁.seq m₂).seq m₃⟩

theorem perform_moves (P : Provisioner σ) {s : Session (Recorded σ)} {st : Stage} (h : s.At st) (r : Request) :
    ∃ st', (s.perform P.recorded r).2.At st' ∧
      Moves s.document s.env st s.state.calls (verdict (s.perform P.recorded r).1) st'
        (s.perform P.recorded r).2.state.calls := by
  cases r with
  | resolve =>
    simp only [perform, verdict_map]
    exact resolve_moves h
  | validate c =>
    simp only [perform, verdict_map, verdict_unit]
    exact validate_moves P c h
  | run c =>
    simp only [perform, verdict_map, verdict_unit]
    exact run_moves P c h
  | apply =>
    simp only [perform, verdict_map]
    exact apply_moves P h

end Session

/-! ### What the calls of a session are -/

/-- The calls that a session with the document `d` has made by a stage. -/
inductive Logged (d : Document) (env : Environment) : Stage → List Call → Prop
  | idle : Logged d env .idle []
  | unresolvable : Logged d env (.failed none) []
  | resolved {g : Graph} (hg : Graph.resolve d = .ok g) : Logged d env (.resolved g (.ofGraph g)) []
  | validated {g : Graph} (hg : Graph.resolve d = .ok g) (c : Context) (g' : Graph) :
    Logged d env (.validated g' ((Plan.ofGraph g).bind c env))
      (passed .validate c ((Plan.ofGraph g).bind c env).tasks)
  | invalid {g : Graph} (hg : Graph.resolve d = .ok g) (c : Context) (g' : Graph) {e : Error}
      {calls : List Call}
      (h : PhaseCalls .validate c 0 ((Plan.ofGraph g).bind c env).tasks (.error e) calls) :
    Logged d env (.failed (some (g', (Plan.ofGraph g).bind c env))) calls
  | applied {g : Graph} (hg : Graph.resolve d = .ok g) (c c' : Context) (g' : Graph) :
    Logged d env (.applied g' ((Plan.ofGraph g).bind c env))
      (passed .validate c ((Plan.ofGraph g).bind c env).tasks
        ++ passed .run c' ((Plan.ofGraph g).bind c env).tasks)
  | broken {g : Graph} (hg : Graph.resolve d = .ok g) (c c' : Context) (g' : Graph) {e : Error}
      {calls : List Call}
      (h : PhaseCalls .run c' 0 ((Plan.ofGraph g).bind c env).tasks (.error e) calls) :
    Logged d env (.failed (some (g', (Plan.ofGraph g).bind c env)))
      (passed .validate c ((Plan.ofGraph g).bind c env).tasks ++ calls)

variable {d : Document} {env : Environment}

theorem Moves.logged {st st' : Stage} {log log' : List Call} {o : Except Error Unit}
    (h : Moves d env st log o st' log') : Logged d env st log → Logged d env st' log' := by
  induction h with
  | refused op stage log => exact id
  | unresolvable log h =>
    rintro ⟨⟩
    exact .unresolvable
  | resolved log h =>
    rintro ⟨⟩
    exact .resolved h
  | validated c g p log =>
    rintro (_ | _ | hg)
    exact .validated hg c _
  | invalid g log h =>
    rintro (_ | _ | hg)
    exact .invalid hg _ _ h
  | applied c g p log =>
    rintro (_ | _ | _ | ⟨hg, c', _⟩)
    exact .applied hg c' c g
  | broken g log h =>
    rintro (_ | _ | _ | ⟨hg, c', _⟩)
    exact .broken hg c' _ g h
  | seq _ _ ih₁ ih₂ => exact fun hl => ih₂ (ih₁ hl)

/-- A failed call among those that a request makes is what the request reports, with its number in its phase. -/
theorem Moves.reports {st st' : Stage} {log log' : List Call} {o : Except Error Unit}
    (h : Moves d env st log o st' log') : Logged d env st log → ∃ new, log' = log ++ new ∧
      ∀ a ∈ new, ∀ e, a.result = .error e → ∃ k, (ofPhase a.phase log')[k]? = some a ∧
        o = .error (.task a.phase k a.task.description e) := by
  induction h with
  | refused op stage log => exact fun _ => ⟨[], by simp, by simp⟩
  | unresolvable log h => exact fun _ => ⟨[], by simp, by simp⟩
  | resolved log h => exact fun _ => ⟨[], by simp, by simp⟩
  | validated c g p log =>
    intro _
    refine ⟨_, rfl, fun a ha e he => ?_⟩
    rw [(of_mem_passed ha).2.2] at he
    cases he
  | invalid g log h =>
    rintro (_ | _ | hg)
    refine ⟨_, rfl, fun a ha e he => ?_⟩
    obtain ⟨k, hk, ho⟩ := h.error_of_mem ha he
    rw [h.phase_of_mem a ha, List.nil_append, ofPhase_eq_self h.phase_of_mem]
    exact ⟨k, hk, by rw [ho, Nat.zero_add]⟩
  | applied c g p log =>
    intro _
    refine ⟨_, rfl, fun a ha e he => ?_⟩
    rw [(of_mem_passed ha).2.2] at he
    cases he
  | broken g log h =>
    rintro (_ | _ | _ | ⟨hg, c', _⟩)
    refine ⟨_, rfl, fun a ha e he => ?_⟩
    obtain ⟨k, hk, ho⟩ := h.error_of_mem ha he
    rw [h.phase_of_mem a ha, h.ofPhase_run]
    exact ⟨k, hk, by rw [ho, Nat.zero_add]⟩
  | seq h₁ _ ih₁ ih₂ =>
    intro hl
    obtain ⟨new₁, rfl, hr₁⟩ := ih₁ hl
    obtain ⟨new₂, rfl, hr₂⟩ := ih₂ (h₁.logged hl)
    refine ⟨new₁ ++ new₂, by simp, fun a ha e he => ?_⟩
    rcases List.mem_append.1 ha with ha | ha
    · -- the first part went well, so none of its calls failed
      obtain ⟨k, -, ho⟩ := hr₁ a ha e he
      cases ho
    · exact hr₂ a ha e he

/-- The calls of a session that validates the tasks of its plan and then runs them. -/
structure TwoPhase (tasks : List Task) (log : List Call) : Prop where
  /-- Every call that validates comes before every call that runs. -/
  apart : log = ofPhase .validate log ++ ofPhase .run log
  /-- The tasks of a phase are the first ones of the plan, in its order and each of them once. -/
  ordered : ∀ phase, (ofPhase phase log).map task <+: tasks
  /-- Nothing is run unless every task of the plan was validated and passed. -/
  guarded : ofPhase .run log ≠ [] → ∃ c, ofPhase .validate log = passed .validate c tasks
  /-- Only the last call can have failed. -/
  stops : ∀ a ∈ log.dropLast, a.result = .ok ()
  /-- What is run is what was validated at the same place. -/
  same : ∀ (i : Nat) (a : Call), (ofPhase .run log)[i]? = some a →
    ∃ b, (ofPhase .validate log)[i]? = some b ∧ b.task = a.task

theorem TwoPhase.nil (tasks : List Task) : TwoPhase tasks [] where
  apart := rfl
  ordered := fun _ => List.nil_prefix
  guarded := fun h => absurd rfl h
  stops := by simp
  same := by simp [ofPhase]

theorem PhaseCalls.twoPhase_of_validate {c : Context} {tasks : List Task} {o : Except Error Unit}
    {calls : List Call} (h : PhaseCalls .validate c 0 tasks o calls) : TwoPhase tasks calls := by
  have hv : ofPhase .validate calls = calls := ofPhase_eq_self h.phase_of_mem
  have hr : ofPhase .run calls = [] := ofPhase_eq_nil (by decide) h.phase_of_mem
  refine ⟨by rw [hv, hr, List.append_nil], fun phase => ?_, fun hne => absurd hr hne,
    h.result_of_mem_dropLast, by simp [hr]⟩
  cases phase with
  | validate => rw [hv]; exact h.tasks_ordered
  | run => rw [hr]; exact List.nil_prefix

theorem PhaseCalls.twoPhase_of_run {c c' : Context} {tasks : List Task} {o : Except Error Unit}
    {calls : List Call} (h : PhaseCalls .run c' 0 tasks o calls) :
    TwoPhase tasks (passed .validate c tasks ++ calls) := by
  have hv := h.ofPhase_validate (c := c)
  have hr := h.ofPhase_run (c := c)
  refine ⟨by rw [hv, hr], fun phase => ?_, fun _ => ⟨c, hv⟩, fun a ha => ?_, fun i a ha => ?_⟩
  · cases phase with
    | validate => exact ⟨[], by simp [hv, tasks_passed]⟩
    | run => rw [hr]; exact h.tasks_ordered
  · rw [List.dropLast_append] at ha
    split at ha
    · exact (of_mem_passed (List.dropLast_subset _ ha)).2.2
    · rcases List.mem_append.1 ha with ha | ha
      · exact (of_mem_passed ha).2.2
      · exact h.result_of_mem_dropLast a ha
  · rw [hr] at ha
    have ht : (calls.map task)[i]? = some a.task := by rw [List.getElem?_map, ha]; rfl
    obtain ⟨rest, hrest⟩ := h.tasks_ordered
    have htasks : tasks[i]? = some a.task := by
      rw [← hrest, List.getElem?_append_left (List.getElem?_eq_some_iff.1 ht).1, ht]
    exact ⟨⟨.validate, a.task, c, .ok ()⟩, by rw [hv, passed, List.getElem?_map, htasks]; rfl, rfl⟩

/-- The plan of a session that has made calls is the document's, bound to the context of validation. -/
theorem Logged.plan_of_calls {st : Stage} {log : List Call} (h : Logged d env st log) (hne : log ≠ []) :
    ∃ g c, Graph.resolve d = .ok g ∧ st.plan? = some ((Plan.ofGraph g).bind c env) ∧
      ∀ a ∈ ofPhase .validate log, a.context = c := by
  cases h with
  | idle => exact absurd rfl hne
  | unresolvable => exact absurd rfl hne
  | resolved hg => exact absurd rfl hne
  | @validated g hg c g' =>
    exact ⟨g, c, hg, rfl, fun a ha => (of_mem_passed (List.mem_filter.1 ha).1).2.1⟩
  | @invalid g hg c g' e calls h =>
    exact ⟨g, c, hg, rfl, fun a ha => (h.of_mem a (List.mem_filter.1 ha).1).2⟩
  | @applied g hg c c' g' =>
    refine ⟨g, c, hg, rfl, fun a ha => ?_⟩
    rw [PhaseCalls.ofPhase_validate .all] at ha
    exact (of_mem_passed ha).2.1
  | @broken g hg c c' g' e calls h =>
    refine ⟨g, c, hg, rfl, fun a ha => ?_⟩
    rw [h.ofPhase_validate] at ha
    exact (of_mem_passed ha).2.1

theorem Logged.twoPhase {st : Stage} {log : List Call} (h : Logged d env st log) : TwoPhase st.tasks log := by
  cases h with
  | idle => exact .nil _
  | unresolvable => exact .nil _
  | resolved hg => exact .nil _
  | validated hg c g' => exact PhaseCalls.twoPhase_of_validate .all
  | invalid hg c g' h => exact h.twoPhase_of_validate
  | applied hg c c' g' => exact PhaseCalls.twoPhase_of_run .all
  | broken hg c c' g' h => exact h.twoPhase_of_run

theorem Logged.calls_of_validated {st : Stage} {log : List Call} (h : Logged d env st log)
    (hs : st.phase = .validated) :
    ∃ c, log = passed .validate c st.tasks := by
  cases h with
  | validated hg c g' => exact ⟨c, rfl⟩
  | _ => cases hs

theorem Logged.calls_of_applied {st : Stage} {log : List Call} (h : Logged d env st log)
    (hs : st.phase = .applied) :
    ∃ c c', log = passed .validate c st.tasks ++ passed .run c' st.tasks := by
  cases h with
  | applied hg c c' g' => exact ⟨c, c', rfl⟩
  | _ => cases hs

namespace Session

/-- What every move keeps is kept by every sequence of requests. -/
theorem performAll_keeps (P : Provisioner σ) {I : Stage → List Call → Prop}
    (h : ∀ {st log o st' log'}, Moves d env st log o st' log' → I st log → I st' log') (rs : List Request) :
    ∀ (s : Session (Recorded σ)) (st : Stage), s.At st → s.document = d → s.env = env → I st s.state.calls →
      (∃ st', (s.performAll P.recorded rs).At st' ∧ I st' (s.performAll P.recorded rs).state.calls) ∧
        (s.performAll P.recorded rs).document = d ∧ (s.performAll P.recorded rs).env = env := by
  induction rs with
  | nil => exact fun s st hst hd he hs => ⟨⟨st, hst, hs⟩, hd, he⟩
  | cons r rs ih =>
    intro s st hst hd he hs
    obtain ⟨st', hst', m⟩ := perform_moves P hst r
    obtain ⟨hd', he'⟩ := perform_frame P.recorded s r
    rw [hd, he] at m
    exact ih (s.perform P.recorded r).2 st' hst' (hd'.trans hd) (he'.trans he) (h m hs)

/-- Whatever is asked of a session: its calls are those of two phases over its plan, a session that is through
has made them all, and a request in which a call fails reports that call, its phase and its number. The calls
are those that `r`, the same session with a record, has written down. -/
theorem calls_twoPhase (P : Provisioner σ) (d : Document) (env : Environment) (live : Option Bool) (x : σ)
    (rs : List Request) :
    let s := (start d env live x).performAll P rs
    let r := (start d env live (⟨x, []⟩ : Recorded σ)).performAll P.recorded rs
    r.mapState Recorded.inner = s ∧
      TwoPhase s.tasks r.state.calls ∧
      (r.state.calls ≠ [] → ∃ g c, Graph.resolve d = .ok g ∧
        s.plan? = some ((Plan.ofGraph g).bind c env) ∧
        ∀ a ∈ ofPhase .validate r.state.calls, a.context = c) ∧
      (s.phase = .validated → ∃ c, r.state.calls = passed .validate c s.tasks) ∧
      (s.phase = .applied → ∃ c c',
        r.state.calls = passed .validate c s.tasks ++ passed .run c' s.tasks) ∧
      ∀ q, ∃ new, (r.perform P.recorded q).2.state.calls = r.state.calls ++ new ∧
        ∀ a ∈ new, ∀ e, a.result = .error e →
          ∃ k, (ofPhase a.phase (r.state.calls ++ new))[k]? = some a ∧
            (s.perform P q).1 = .error (.task a.phase k a.task.description e) := by
  intro s r
  have hs : r.mapState Recorded.inner = s :=
    (performAll_mapState P.recorded_carries (start d env live ⟨x, []⟩) rs).symm
  obtain ⟨⟨st, hst, hl⟩, hd, he⟩ := performAll_keeps P Moves.logged rs
    (start d env live (⟨x, []⟩ : Recorded σ)) .idle (start_at ..) rfl rfl .idle
  change Logged d env st r.state.calls at hl
  have hat := hst.mapState Recorded.inner
  rw [← hs, hat.tasks_eq, hat.plan, hat.phase]
  refine ⟨rfl, hl.twoPhase, hl.plan_of_calls, hl.calls_of_validated, hl.calls_of_applied, fun q => ?_⟩
  obtain ⟨_, -, m⟩ := perform_moves P hst q
  rw [show r.document = d from hd, show r.env = env from he] at m
  obtain ⟨new, hnew, hr⟩ := m.reports hl
  refine ⟨new, hnew, fun a ha e hae => ?_⟩
  obtain ⟨k, hk, ho⟩ := hr a ha e hae
  rw [perform_mapState P.recorded_carries]
  exact ⟨k, hnew ▸ hk, verdict_eq_error.1 ho⟩

end Session

end Rollout
