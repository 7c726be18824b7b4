import Rollout.Proofs.Resolution
import Rollout.Proofs.Session.TwoPhase
import Mathlib.Data.List.Induction

/-! The lifecycle of a session. A request is accepted in one phase only and refused in all others, and a refusal
leaves no trace; `Advances` is everything that an accepted request can do, and what a session has by each phase
follows from it step by step. -/

namespace Rollout

variable {σ : Type}

open Call

namespace Session

def Request.requires : Request → RunPhase
  | resolve | apply => .idle
  | validate _ => .resolved
  | run _ => .validated

/-- The operation that refuses a request. Applying resolves first. -/
def Request.gate : Request → Operation
  | resolve | apply => .resolve
  | validate _ => .validate
  | run _ => .run

theorem Request.requires_of_gate {q : Request} :
    (q.gate = .validate → q.requires = .resolved) ∧ (q.gate = .run → q.requires = .validated) := by
  cases q <;> simp [gate, requires]

def Request.Validates (own c : Context) : Request → Prop
  | resolve | run _ => False
  | validate c' => c' = c
  | apply => own = c

end Session

open Session

/-- What an accepted request can do in a session with the document `d` that asks for the context `own`: the answer,
the next stage and the calls made. -/
inductive Advances (d : Document) (env : Environment) (own : Context) :
    Request → Stage → Except Error Unit → Stage → List Call → Prop
  | unresolvable {q : Request} {e : Error} (hq : q.requires = .idle) (hr : Graph.resolve d = .error e) :
    Advances d env own q .idle (.error e) (.failed none) []
  | resolved {g : Graph} (hr : Graph.resolve d = .ok g) :
    Advances d env own .resolve .idle (.ok ()) (.resolved g (.ofGraph g)) []
  | validated (c : Context) (g : Graph) (p : Plan) :
    Advances d env own (.validate c) (.resolved g p) (.ok ()) (.validated (c.bind env g) (p.bind c env))
      (passed .validate c (p.bind c env).tasks)
  | invalid {c : Context} {p : Plan} {e : Error} {calls : List Call} (g : Graph)
      (h : PhaseCalls .validate c 0 (p.bind c env).tasks (.error e) calls) :
    Advances d env own (.validate c) (.resolved g p) (.error e)
      (.failed (some (c.bind env g, p.bind c env))) calls
  | ran (c : Context) (g : Graph) (p : Plan) :
    Advances d env own (.run c) (.validated g p) (.ok ()) (.applied g p) (passed .run c p.tasks)
  | broken {c : Context} {p : Plan} {e : Error} {calls : List Call} (g : Graph)
      (h : PhaseCalls .run c 0 p.tasks (.error e) calls) :
    Advances d env own (.run c) (.validated g p) (.error e) (.failed (some (g, p))) calls
  | applyInvalid {g : Graph} {e : Error} {calls : List Call} (hr : Graph.resolve d = .ok g)
      (h : PhaseCalls .validate own 0 ((Plan.ofGraph g).bind own env).tasks (.error e) calls) :
    Advances d env own .apply .idle (.error e)
      (.failed (some (own.bind env g, (Plan.ofGraph g).bind own env))) calls
  | applyBroken {g : Graph} {e : Error} {calls : List Call} (hr : Graph.resolve d = .ok g)
      (h : PhaseCalls .run own 0 ((Plan.ofGraph g).bind own env).tasks (.error e) calls) :
    Advances d env own .apply .idle (.error e)
      (.failed (some (own.bind env g, (Plan.ofGraph g).bind own env)))
      (passed .validate own ((Plan.ofGraph g).bind own env).tasks ++ calls)
  | applied {g : Graph} (hr : Graph.resolve d = .ok g) :
    Advances d env own .apply .idle (.ok ()) (.applied (own.bind env g) ((Plan.ofGraph g).bind own env))
      (passed .validate own ((Plan.ofGraph g).bind own env).tasks ++
        passed .run own ((Plan.ofGraph g).bind own env).tasks)

namespace Session

theorem perform_refused (P : Provisioner σ) {s : Session σ} {q : Request} (h : s.phase ≠ q.requires) :
    s.perform P q = (.error (.lifecycle q.gate s.phase), s) := by
  cases q with
  | resolve =>
    rw [perform, resolve_refused h]
    rfl
  | validate c =>
    rw [perform, validate_refused (.inl h)]
    rfl
  | run c =>
    rw [perform, run_refused (.inl h)]
    rfl
  | apply =>
    rw [perform, apply_of_unresolved (resolve_refused h)]
    rfl

/-! ### Requests in their phase -/

theorem resolve_advances {s : Session (Recorded σ)} (h : s.At .idle) :
    ∃ st', s.resolve.2.At st' ∧ Advances s.document s.env s.context .resolve .idle (verdict s.resolve.1) st' [] ∧
      s.resolve.2.state.calls = s.state.calls := by
  cases hr : Graph.resolve s.document with
  | error e =>
    rw [resolve_of_unresolvable h.phase hr]
    exact ⟨.failed none, ⟨rfl, h.graph, h.plan⟩, .unresolvable rfl hr, rfl⟩
  | ok g =>
    rw [resolve_of_resolvable h.phase hr]
    exact ⟨.resolved g (.ofGraph g), ⟨rfl, rfl, rfl⟩, .resolved hr, rfl⟩

theorem apply_advances (P : Provisioner σ) {s : Session (Recorded σ)} (h : s.At .idle) :
    ∃ calls st', (s.apply P.recorded).2.At st' ∧
      Advances s.document s.env s.context .apply .idle (verdict (s.apply P.recorded).1) st' calls ∧
      (s.apply P.recorded).2.state.calls = s.state.calls ++ calls := by
  cases hr : Graph.resolve s.document with
  | error e =>
    rw [apply_of_unresolved (resolve_of_unresolvable h.phase hr)]
    exact ⟨[], .failed none, ⟨rfl, h.graph, h.plan⟩, .unresolvable rfl hr, (List.append_nil _).symm⟩
  | ok g =>
    obtain ⟨h₁, hat, henv, hstate, hcontext⟩ := resolve_keeps h.phase hr
    have hvalidate := validate_calls P s.context hat.applying
    -- validating starts with the environment and the calls that resolving has left as they were
    rw [show s.resolve.2.applying.env = s.env from henv,
      show s.resolve.2.applying.state = s.state from hstate] at hvalidate
    obtain ⟨calls, s₂, hc, ⟨h₂, rfl, hs₂⟩ | ⟨e, h₂, hp, hs₂⟩⟩ := hvalidate
    · rw [← hcontext] at h₂
      rw [apply_of_validated h₁ h₂, verdict_map, verdict_unit, hcontext]
      obtain ⟨calls, s₃, hc', ⟨h₃, rfl, hs₃⟩ | ⟨e, h₃, hp, hs₃⟩⟩ := run_calls P s.context hs₂
      · rw [h₃, hc', hc, List.append_assoc]
        exact ⟨_, _, hs₃, .applied hr, rfl⟩
      · rw [h₃, hc', hc, List.append_assoc]
        exact ⟨_, _, hs₃, .applyBroken hr hp, rfl⟩
    · rw [← hcontext] at h₂
      rw [apply_of_invalid h₁ h₂]
      exact ⟨calls, _, hs₂, .applyInvalid hr hp, hc⟩

theorem perform_advances_recorded (P : Provisioner σ) {s : Session (Recorded σ)} {st : Stage} (hst : s.At st)
    {q : Request} (h : s.phase = q.requires) :
    ∃ calls st', (s.perform P.recorded q).2.At st' ∧
      Advances s.document s.env s.context q st (verdict (s.perform P.recorded q).1) st' calls ∧
      (s.perform P.recorded q).2.state.calls = s.state.calls ++ calls := by
  cases q with
  | resolve =>
    obtain rfl := hst.of_idle h
    obtain ⟨st', hst', hadv, hcalls⟩ := resolve_advances hst
    simp only [perform, verdict_map]
    exact ⟨[], st', hst', hadv, by rw [hcalls, List.append_nil]⟩
  | validate c =>
    obtain ⟨g, p, rfl⟩ := hst.of_resolved h
    obtain ⟨calls, s', hc, ⟨h', rfl, hs'⟩ | ⟨e, h', hp, hs'⟩⟩ := validate_calls P c hst
    · simp only [perform, verdict_map, verdict_unit, h']
      exact ⟨_, _, hs', .validated c g p, hc⟩
    · simp only [perform, verdict_map, verdict_unit, h']
      exact ⟨calls, _, hs', .invalid g hp, hc⟩
  | run c =>
    obtain ⟨g, p, rfl⟩ := hst.of_validated h
    obtain ⟨calls, s', hc, ⟨h', rfl, hs'⟩ | ⟨e, h', hp, hs'⟩⟩ := run_calls P c hst
    · simp only [perform, verdict_map, verdict_unit, h']
      exact ⟨_, _, hs', .ran c g p, hc⟩
    · simp only [perform, verdict_map, verdict_unit, h']
      exact ⟨calls, _, hs', .broken g hp, hc⟩
  | apply =>
    obtain rfl := hst.of_idle h
    simp only [perform, verdict_map]
    exact apply_advances P hst

def recording (s : Session σ) : Session (Recorded σ) := s.mapState fun x => ⟨x, []⟩

theorem perform_recording (P : Provisioner σ) (s : Session σ) (q : Request) :
    s.perform P q = ((s.recording.perform P.recorded q).1,
      (s.recording.perform P.recorded q).2.mapState Recorded.inner) :=
  perform_mapState P.recorded_carries s.recording q

theorem perform_advances (P : Provisioner σ) {s : Session σ} {st : Stage} (hst : s.At st) {q : Request}
    (h : s.phase = q.requires) :
    ∃ calls st', (s.perform P q).2.At st' ∧
      Advances s.document s.env s.context q st (verdict (s.perform P q).1) st' calls := by
  obtain ⟨calls, st', hst', hadv, -⟩ :=
    perform_advances_recorded P (s := s.recording) (hst.mapState _) h
  rw [perform_recording]
  exact ⟨calls, st', hst'.mapState _, hadv⟩

end Session

/-! ### What accepted requests come to -/

theorem Document.lifecycle_not_mem (d : Document) (op : Operation) (phase : RunPhase) :
    .lifecycle op phase ∉ d.violations := by
  simp [violations, danglingDisks, misplacements, misexposures, mem_demand]

theorem Graph.resolve_ne_lifecycle (d : Document) (op : Operation) (phase : RunPhase) :
    Graph.resolve d ≠ .error (.lifecycle op phase) := by
  intro h
  rw [← fault?_eq_some, Resolve.fault?_resolve] at h
  exact d.lifecycle_not_mem op phase (List.mem_of_mem_head? h)

theorem PhaseCalls.ne_lifecycle {phase : TaskPhase} {c : Context} {index : Nat} {ts : List Task} {e : Error}
    {calls : List Call} (h : PhaseCalls phase c index ts (.error e) calls) (op : Operation) (ph : RunPhase) :
    e ≠ .lifecycle op ph := by
  cases h
  exact fun h => nomatch h

namespace Advances

variable {d : Document} {env : Environment} {own : Context} {q : Request} {st st' : Stage} {calls : List Call}

theorem ne_lifecycle {e : Error} (h : Advances d env own q st (.error e) st' calls) (op : Operation)
    (phase : RunPhase) : e ≠ .lifecycle op phase := by
  cases h with
  | unresolvable hq hr =>
    rintro rfl
    exact Graph.resolve_ne_lifecycle d op phase hr
  | invalid g hp => exact hp.ne_lifecycle op phase
  | broken g hp => exact hp.ne_lifecycle op phase
  | applyInvalid hr hp => exact hp.ne_lifecycle op phase
  | applyBroken hr hp => exact hp.ne_lifecycle op phase

theorem phase_of_error {e : Error} (h : Advances d env own q st (.error e) st' calls) : st'.phase = .failed := by
  cases h <;> rfl

theorem of_unresolvable {o : Except Error Unit} {e : Error} (h : Advances d env own q .idle o st' calls)
    (hr : Graph.resolve d = .error e) : o = .error e ∧ st' = .failed none ∧ calls = [] := by
  cases h with
  | unresolvable hq hr' =>
    rw [hr] at hr'
    cases hr'
    exact ⟨rfl, rfl, rfl⟩
  | resolved hr' | applyInvalid hr' _ | applyBroken hr' _ | applied hr' =>
    rw [hr] at hr'
    cases hr'

end Advances

/-- What a session has by a stage, where `V` says with which contexts it can have been validated. -/
inductive Stage.Backed (d : Document) (env : Environment) (V : Context → Prop) : Stage → Prop
  | idle : Backed d env V .idle
  | resolved {g : Graph} (hr : Graph.resolve d = .ok g) : Backed d env V (.resolved g (.ofGraph g))
  | validated {g : Graph} {c : Context} (hr : Graph.resolve d = .ok g) (hc : V c) :
    Backed d env V (.validated (c.bind env g) ((Plan.ofGraph g).bind c env))
  | applied {g : Graph} {c : Context} (hr : Graph.resolve d = .ok g) (hc : V c) :
    Backed d env V (.applied (c.bind env g) ((Plan.ofGraph g).bind c env))
  | failed (reached : Option (Graph × Plan)) : Backed d env V (.failed reached)

section

variable {d : Document} {env : Environment} {V V' : Context → Prop}

theorem Stage.Backed.mono {st : Stage} (h : st.Backed d env V) (hV : ∀ c, V c → V' c) :
    st.Backed d env V' := by
  cases h with
  | idle => exact .idle
  | resolved hr => exact .resolved hr
  | validated hr hc => exact .validated hr (hV _ hc)
  | applied hr hc => exact .applied hr (hV _ hc)
  | failed reached => exact .failed reached

/-- The step: only what validates adds a context. -/
theorem Advances.backed {own : Context} {q : Request} {st st' : Stage} {o : Except Error Unit}
    {calls : List Call} (h : Advances d env own q st o st' calls) (hst : st.Backed d env V)
    (hV : ∀ c, V c → V' c) (hq : ∀ c, q.Validates own c → V' c) : st'.Backed d env V' := by
  cases h with
  | resolved hr => exact .resolved hr
  | validated c g p =>
    cases hst with
    | resolved hr => exact .validated hr (hq c rfl)
  | ran c g p =>
    cases hst with
    | validated hr hc => exact .applied hr (hV _ hc)
  | applied hr => exact .applied hr (hq own rfl)
  | unresolvable | invalid | broken | applyInvalid | applyBroken => exact .failed _

end

namespace Session

/-! ### Actions on a session -/

/-- What its owner can do with a session: ask something of it, or override its mode. -/
inductive Action where
  | ask (q : Request)
  | setLive (live : Option Bool)

def act (P : Provisioner σ) (s : Session σ) : Action → Session σ
  | .ask q => (s.perform P q).2
  | .setLive live => { s with live := live }

def actAll (P : Provisioner σ) (s : Session σ) (as : List Action) : Session σ := as.foldl (act P) s

theorem actAll_snoc (P : Provisioner σ) (s : Session σ) (as : List Action) (a : Action) :
    s.actAll P (as ++ [a]) = (s.actAll P as).act P a := by
  simp [actAll]

/-- One of the actions on `s` was accepted and validated with the context `c`. -/
def ValidatedWith (P : Provisioner σ) (s : Session σ) (as : List Action) (c : Context) : Prop :=
  ∃ before q after, as = before ++ .ask q :: after ∧ (s.actAll P before).phase = q.requires ∧
    q.Validates (s.actAll P before).context c

theorem ValidatedWith.snoc {P : Provisioner σ} {s : Session σ} {as : List Action} {c : Context}
    (h : s.ValidatedWith P as c) (a : Action) : s.ValidatedWith P (as ++ [a]) c := by
  obtain ⟨before, q, after, rfl, hphase, hq⟩ := h
  exact ⟨before, q, after ++ [a], by simp, hphase, hq⟩

theorem act_frame (P : Provisioner σ) (s : Session σ) (a : Action) :
    (s.act P a).document = s.document ∧ (s.act P a).env = s.env := by
  cases a with
  | ask q => exact perform_frame P s q
  | setLive live => exact ⟨rfl, rfl⟩

theorem actAll_frame (P : Provisioner σ) (s : Session σ) (as : List Action) :
    (s.actAll P as).document = s.document ∧ (s.actAll P as).env = s.env := by
  induction as using List.reverseRecOn with
  | nil => exact ⟨rfl, rfl⟩
  | append_singleton as a ih =>
    rw [actAll_snoc, (act_frame ..).1, (act_frame ..).2]
    exact ih

/-- The run: whatever is done with a new session, it is at a stage and has what the stage says. -/
theorem actAll_backed (P : Provisioner σ) {s : Session σ} (h : s.At .idle) (as : List Action) :
    ∃ st, (s.actAll P as).At st ∧ st.Backed s.document s.env (s.ValidatedWith P as) := by
  induction as using List.reverseRecOn with
  | nil => exact ⟨.idle, h, .idle⟩
  | append_singleton as a ih =>
    obtain ⟨st, hst, hbacked⟩ := ih
    have hold : ∀ c, s.ValidatedWith P as c → s.ValidatedWith P (as ++ [a]) c := fun c hc => hc.snoc a
    rw [actAll_snoc]
    cases a with
    | setLive live => exact ⟨st, ⟨hst.phase, hst.graph, hst.plan⟩, hbacked.mono hold⟩
    | ask q =>
      by_cases hphase : (s.actAll P as).phase = q.requires
      · obtain ⟨calls, st', hst', hadv⟩ := perform_advances P hst hphase
        rw [(actAll_frame P s as).1, (actAll_frame P s as).2] at hadv
        exact ⟨st', hst', hadv.backed hbacked hold fun c hc => ⟨as, q, [], rfl, hphase, hc⟩⟩
      · rw [act, perform_refused P hphase]
        exact ⟨st, hst, hbacked.mono hold⟩

theorem actAll_phase_of_final (P : Provisioner σ) {s : Session σ} (h : s.phase = .applied ∨ s.phase = .failed)
    (as : List Action) : (s.actAll P as).phase = s.phase := by
  induction as using List.reverseRecOn with
  | nil => rfl
  | append_singleton as a ih =>
    rw [actAll_snoc]
    cases a with
    | setLive live => exact ih
    | ask q =>
      have hphase : (s.actAll P as).phase ≠ q.requires := by
        rw [ih]
        rcases h with h | h <;> cases q <;> simp [h, Request.requires]
      rw [act, perform_refused P hphase]
      exact ih

/-! ### The lifecycle -/

/-- What a session with the document `d` shows in each phase. -/
structure Consistent (d : Document) (env : Environment) (V : Context → Prop) (s : Session σ) : Prop where
  document : s.document = d
  idle : s.phase = .idle → s.plan? = none ∧ s.graph = {}
  /-- There is a plan, and it is the document's but for the form of its targets. -/
  planned : s.phase = .resolved ∨ s.phase = .validated ∨ s.phase = .applied →
    ∃ g p, Graph.resolve d = .ok g ∧ s.plan? = some p ∧ p.tier = (Plan.ofGraph g).tier ∧
      p.size = (Plan.ofGraph g).size ∧
      p.tasks.map Task.description = (Plan.ofGraph g).tasks.map Task.description
  resolved : s.phase = .resolved → Graph.resolve d = .ok s.graph
  bound : s.phase = .validated ∨ s.phase = .applied →
    ∃ g c, Graph.resolve d = .ok g ∧ V c ∧ s.graph = c.bind env g

structure Guarded (P : Provisioner σ) (d : Document) (s : Session σ) : Prop where
  refused_iff : ∀ q, (∃ op phase, (s.perform P q).1 = .error (.lifecycle op phase)) ↔ s.phase ≠ q.requires
  /-- A refusal names the phase and leaves all as it was, the provisioner and the journal included. -/
  unchanged : ∀ q, s.phase ≠ q.requires → s.perform P q = (.error (.lifecycle q.gate s.phase), s)
  uncalled : ∀ q, s.phase ≠ q.requires → (s.recording.perform P.recorded q).2.state.calls = []
  fails : ∀ q e, (s.perform P q).1 = .error e → (∀ op phase, e ≠ .lifecycle op phase) →
    (s.perform P q).2.phase = .failed
  unresolvable : ∀ q e, s.phase = .idle → q.requires = .idle → Graph.resolve d = .error e →
    (s.perform P q).1 = .error e ∧ (s.perform P q).2.phase = .failed ∧ (s.perform P q).2.graph = {} ∧
      (s.perform P q).2.plan? = none

/-- Neither validating nor running misses its plan. -/
structure Supplied (P : Provisioner σ) (s : Session σ) : Prop where
  planned : s.phase = .resolved ∨ s.phase = .validated → s.plan? ≠ none
  /-- No request, applying included, gets the answer that a missing plan has in the right phase. -/
  answered : ∀ q, (s.perform P q).1 ≠ .error (.lifecycle .validate .resolved) ∧
    (s.perform P q).1 ≠ .error (.lifecycle .run .validated)

end Session

theorem Plan.bind_keeps (p : Plan) (c : Context) (env : Environment) :
    (p.bind c env).tier = p.tier ∧ (p.bind c env).size = p.size ∧
      (p.bind c env).tasks.map Task.description = p.tasks.map Task.description := by
  refine ⟨rfl, List.length_map _, ?_⟩
  rw [bind, List.map_map]
  rfl

namespace Session

theorem consistent_of_backed {s : Session σ} {d : Document} {env : Environment} {V : Context → Prop}
    (hd : s.document = d) {st : Stage} (hst : s.At st) (h : st.Backed d env V) : s.Consistent d env V := by
  obtain ⟨hphase, hgraph, hplan⟩ := hst
  -- what is said of other phases than that of the stage is left to the end of each case
  cases h with
  | idle =>
    refine ⟨hd, fun _ => ⟨hplan, hgraph⟩, ?_, ?_, ?_⟩ <;> simp [hphase, Stage.phase]
  | failed reached =>
    refine ⟨hd, ?_, ?_, ?_, ?_⟩ <;> simp [hphase, Stage.phase]
  | resolved hr =>
    refine ⟨hd, ?_, fun _ => ⟨_, _, hr, hplan, rfl, rfl, rfl⟩, fun _ => hgraph ▸ hr, ?_⟩ <;>
      simp [hphase, Stage.phase]
  | validated hr hc | applied hr hc =>
    refine ⟨hd, ?_, fun _ => ⟨_, _, hr, hplan, Plan.bind_keeps _ _ _⟩, ?_, fun _ => ⟨_, _, hr, hc, hgraph⟩⟩ <;>
      simp [hphase, Stage.phase]

theorem guarded (P : Provisioner σ) {s : Session σ} {st : Stage} (hst : s.At st) {d : Document}
    (hd : s.document = d) : s.Guarded P d := by
  have haccepted : ∀ {q e}, (s.perform P q).1 = .error e → s.phase = q.requires → ∃ calls st',
      (s.perform P q).2.At st' ∧ Advances d s.env s.context q st (.error e) st' calls := by
    intro q e he hphase
    obtain ⟨calls, st', hst', hadv⟩ := perform_advances P hst hphase
    rw [verdict_eq_error.2 he, hd] at hadv
    exact ⟨calls, st', hst', hadv⟩
  refine ⟨fun q => ⟨?_, fun hne => ?_⟩, fun q => perform_refused P, fun q hne => ?_, fun q e he hne => ?_, ?_⟩
  · rintro ⟨op, ph, he⟩ hphase
    obtain ⟨calls, st', -, hadv⟩ := haccepted he hphase
    exact hadv.ne_lifecycle op ph rfl
  · rw [perform_refused P hne]
    exact ⟨q.gate, s.phase, rfl⟩
  · rw [perform_refused P.recorded (s := s.recording) hne]
    rfl
  · by_cases hphase : s.phase = q.requires
    · obtain ⟨calls, st', hst', hadv⟩ := haccepted he hphase
      rw [hst'.phase, hadv.phase_of_error]
    · rw [perform_refused P hphase] at he
      cases he
      exact absurd rfl (hne q.gate s.phase)
  · intro q e hidle hq hr
    obtain rfl := hst.of_idle hidle
    obtain ⟨calls, st', hst', hadv⟩ := perform_advances P hst (hidle.trans hq.symm)
    rw [hd] at hadv
    obtain ⟨ho, rfl, -⟩ := hadv.of_unresolvable hr
    exact ⟨verdict_eq_error.1 ho, hst'.phase, hst'.graph, hst'.plan⟩

theorem gate_of_refusal (P : Provisioner σ) {s : Session σ} {st : Stage} (hst : s.At st) {q : Request}
    {op : Operation} {phase : RunPhase} (h : (s.perform P q).1 = .error (.lifecycle op phase)) :
    op = q.gate ∧ phase ≠ q.requires := by
  have hne := ((guarded P hst rfl).refused_iff q).1 ⟨op, phase, h⟩
  rw [perform_refused P hne] at h
  cases h
  exact ⟨rfl, hne⟩

/-- A session that is at a stage has its plan where one is looked for, so what is refused is out of phase. -/
theorem supplied (P : Provisioner σ) {s : Session σ} {st : Stage} (hst : s.At st) : s.Supplied P := by
  refine ⟨?_, fun q => ⟨fun h => ?_, fun h => ?_⟩⟩
  · rintro (h | h)
    · obtain ⟨g, p, rfl⟩ := hst.of_resolved h
      simp [hst.plan, Stage.plan?, Stage.reached]
    · obtain ⟨g, p, rfl⟩ := hst.of_validated h
      simp [hst.plan, Stage.plan?, Stage.reached]
  · obtain ⟨hop, hne⟩ := gate_of_refusal P hst h
    exact hne (Request.requires_of_gate.1 hop.symm).symm
  · obtain ⟨hop, hne⟩ := gate_of_refusal P hst h
    exact hne (Request.requires_of_gate.2 hop.symm).symm

/-- Whatever is done with a new session: it has what its phase says, the plan above all where validating and running
look for it; it refuses what is out of phase without any effect, every other error ends it, and an applied or failed
session stays as it is. -/
theorem actAll_lifecycle (P : Provisioner σ) (d : Document) (env : Environment) (live : Option Bool) (x : σ)
    (as : List Action) :
    let s := (start d env live x).actAll P as
    s.Consistent d env ((start d env live x).ValidatedWith P as) ∧ s.Guarded P d ∧ s.Supplied P ∧
      (s.phase = .applied ∨ s.phase = .failed → ∀ as', (s.actAll P as').phase = s.phase) := by
  intro s
  have hd : s.document = d := (actAll_frame P (start d env live x) as).1
  obtain ⟨st, hst, hbacked⟩ := actAll_backed P (start_at d env live x) as
  exact ⟨consistent_of_backed hd hst hbacked, guarded P hst hd, supplied P hst, actAll_phase_of_final P⟩

-- A session value may lack its plan, and is then refused in the right phase.
example (P : Provisioner σ) (c : Context) (d : Document) (env : Environment) (x : σ) :
    let s : Session σ := { start d env none x with phase := .resolved }
    s.perform P (.validate c) = (.error (.lifecycle .validate .resolved), s) := rfl

end Session

end Rollout
