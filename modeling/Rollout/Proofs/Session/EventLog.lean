import Rollout.Proofs.Keyed
import Rollout.Proofs.Session.Lifecycle

/-! The events of applying a document. Every step of a session only adds to what was said before, all of it in one
mode, and what it adds is a function of the calls that it makes: a task is announced when its call went well, and
the first call that fails ends the log. -/

namespace Rollout

variable {σ : Type}

open Call

/-! ### The mode of a session -/

namespace Context

theorem flag_foldl_insert (env : Environment) (es : List (String × String)) (h : (es.map Prod.fst).Nodup)
    (c : Context) :
    (es.foldl (fun c e => c.insert e.1 (env.expand e.2)) c).flag =
      ((es.lookup liveMode).map fun v => .text (env.expand v)).or c.flag := by
  induction es generalizing c with
  | nil => rfl
  | cons e es ih =>
    obtain ⟨k, v⟩ := e
    simp only [List.map_cons, List.nodup_cons] at h
    rw [List.foldl_cons, ih h.2, Keyed.lookup_cons_ite]
    by_cases hk : k = liveMode
    -- the keys are different, so the variable that sets the mode is met once
    · have hnone : es.lookup liveMode = none := by
        refine List.lookup_eq_none_iff.2 fun p hp => ?_
        have hne : liveMode ≠ p.1 := by
          rintro he
          exact h.1 (hk ▸ he ▸ List.mem_map_of_mem hp)
        simpa using hne
      simp [insert, hk, hnone]
    · simp [insert, hk, Ne.symm hk]

theorem flag_ofVars (env : Environment) (vars : Keyed String) :
    (ofVars env vars).flag = (vars.get? liveMode).map fun v => .text (env.expand v) := by
  rw [ofVars, flag_foldl_insert env vars.entries vars.nodup_keys]
  exact Option.or_none

theorem mode_ofVars (env : Environment) (vars : Keyed String) :
    (ofVars env vars).mode = .live ↔
      ∃ v, vars.get? liveMode = some v ∧ env.expand v ∈ ModeFlag.liveWords := by
  rw [mode, flag_ofVars]
  cases vars.get? liveMode with
  | none => simp
  | some v => simp [ModeFlag.mode]

end Context

theorem Session.mode_context (s : Session σ) :
    s.context.mode = .live ↔ s.live = some true ∨
      s.live = none ∧ ∃ v, s.document.vars.get? Context.liveMode = some v ∧
        s.env.expand v ∈ ModeFlag.liveWords := by
  unfold context
  cases s.live with
  | none => simpa using Context.mode_ofVars s.env s.document.vars
  | some live => cases live <;> simp [Context.withFlag, Context.mode, ModeFlag.mode]

/-! ### What a step says -/

/-- The session `s'` has said `es` since `s`, in the mode `mode`. -/
def Session.Says (mode : Mode) (s s' : Session σ) (es : List Event) : Prop :=
  s'.events = s.events ++ es.map fun e => (mode, e)

namespace Session

theorem Says.trans {mode : Mode} {s s' s'' : Session σ} {es es' : List Event} (h : Says mode s s' es)
    (h' : Says mode s' s'' es') : Says mode s s'' (es ++ es') := by
  unfold Says at h h' ⊢
  rw [h', h, List.map_append, List.append_assoc]

variable (mode : Mode) (s : Session σ)

theorem says_refl : Says mode s s [] := (List.append_nil _).symm

theorem says_emit (e : Event) : Says mode s (s.emit mode e) [e] :=
  List.filterMap_append

theorem says_trace (ls : List Line) : Says mode s (s.trace ls) [] := by
  have hlines : (ls.map Entry.line).filterMap Entry.event? = [] :=
    List.filterMap_eq_nil_iff.2 fun a ha => by
      obtain ⟨l, -, rfl⟩ := List.mem_map.1 ha
      rfl
  unfold Says events trace
  rw [List.filterMap_append, hlines]
  rfl

theorem says_enter (next : RunPhase) : Says mode s (s.enter mode next) [.entered next] :=
  says_emit mode { s with phase := next } (.entered next)

end Session

/-- What is said when a step ends: the phase that it leads to, or the error. -/
def Event.closing (next : RunPhase) : Except Error Unit → List Event
  | .ok () => [.entered next]
  | .error e => [.entered .failed, .failed e.message]

namespace Session

theorem says_fail (mode : Mode) (s : Session σ) (e : Error) :
    Says mode s (s.fail mode e) [.entered .failed, .failed e.message] :=
  (says_enter mode s .failed).trans (says_emit mode _ (.failed e.message))

theorem says_conclude (mode : Mode) (next : RunPhase) (o : Except Error Unit) (s : Session σ) :
    Says mode s (conclude mode next (o, s)).2 (Event.closing next o) := by
  cases o with
  | error e => exact says_fail mode s e
  | ok u => exact says_enter mode s next

theorem says_handed (mode : Mode) (P : Provisioner σ) (phase : TaskPhase) (c : Context) (t : Task)
    (s : Session σ) : Says mode s (s.handed P phase c t) [] :=
  says_trace mode { s with state := (P.attempt phase t c s.state).state } _

end Session

/-! ### One phase -/

/-- The events of tasks that came through a phase, where the first has the number `index`. -/
def Event.passes (phase : TaskPhase) (index : Nat) (ts : List Task) : List Event :=
  ts.mapIdx fun i t => .passed phase (index + i) t.description

theorem Event.passes_cons (phase : TaskPhase) (index : Nat) (t : Task) (ts : List Task) :
    passes phase index (t :: ts) = .passed phase index t.description :: passes phase (index + 1) ts := by
  unfold passes
  rw [List.mapIdx_cons]
  simp only [Nat.add_zero, Nat.add_assoc, Nat.add_comm 1]

/-- A phase over `ts`, whose first task has the number `index`: how it ends, the calls it makes, and what it says of
the tasks that came through, which are all or those before the first that failed. -/
inductive PhaseLog (phase : TaskPhase) (c : Context) (index : Nat) (ts : List Task) :
    Except Error Unit → List Call → List Event → Prop
  | all : PhaseLog phase c index ts (.ok ()) (passed phase c ts) (Event.passes phase index ts)
  | halted (before : List Task) (t : Task) (after : List Task) (e : TaskError) (h : ts = before ++ t :: after) :
    PhaseLog phase c index ts (.error (.task phase (index + before.length) t.description e))
      (passed phase c before ++ [⟨phase, t, c, .error e⟩]) (Event.passes phase index before)

theorem PhaseLog.cons {phase : TaskPhase} {c : Context} {index : Nat} {ts : List Task} {o : Except Error Unit}
    {calls : List Call} {log : List Event} (t : Task) (h : PhaseLog phase c (index + 1) ts o calls log) :
    PhaseLog phase c index (t :: ts) o (⟨phase, t, c, .ok ()⟩ :: calls)
      (.passed phase index t.description :: log) := by
  cases h with
  | all =>
    rw [← Event.passes_cons]
    exact all
  | halted before u after e h =>
    have hi : index + 1 + before.length = index + (t :: before).length := by
      rw [List.length_cons]
      omega
    rw [hi, ← Event.passes_cons]
    exact halted (t :: before) u after e (by rw [h]; rfl)

namespace Session

theorem execute_log (P : Provisioner σ) (phase : TaskPhase) (c : Context) (ts : List Task) :
    ∀ (index : Nat) (s : Session (Recorded σ)), ∃ calls log,
      PhaseLog phase c index ts (s.execute P.recorded phase c index ts).1 calls log ∧
        (s.execute P.recorded phase c index ts).2.state.calls = s.state.calls ++ calls ∧
        Says c.mode s (s.execute P.recorded phase c index ts).2 log := by
  induction ts with
  | nil =>
    intro index s
    exact ⟨[], [], .all, (List.append_nil _).symm, says_refl c.mode s⟩
  | cons t ts ih =>
    intro index s
    have hhanded := says_handed c.mode P.recorded phase c t s
    cases hr : (P.attempt phase t c s.state.inner).result with
    | error e =>
      have hr' : (P.recorded.attempt phase t c s.state).result = .error e := hr
      rw [execute_cons_error hr']
      refine ⟨[⟨phase, t, c, .error e⟩], [], .halted [] t ts e rfl, ?_, hhanded⟩
      rw [← hr]
      rfl
    | ok u =>
      have hr' : (P.recorded.attempt phase t c s.state).result = .ok () := hr
      rw [execute_cons_ok hr']
      obtain ⟨calls, log, hlog, hcalls, hsays⟩ := ih (index + 1)
        ((s.handed P.recorded phase c t).emit c.mode (.passed phase index t.description))
      refine ⟨⟨phase, t, c, .ok ()⟩ :: calls, .passed phase index t.description :: log, hlog.cons t, ?_, ?_⟩
      · rw [hcalls]
        simp [emit, handed, trace, Provisioner.recorded, hr]
      · exact hhanded.trans ((says_emit c.mode _ _).trans hsays)

theorem conclude_execute_log (P : Provisioner σ) (phase : TaskPhase) (c : Context) (ts : List Task)
    {s : Session (Recorded σ)} {st : Stage} (h : s.At st) (next : Stage) (hnext : next.reached = st.reached) :
    ∃ o s' calls log, conclude c.mode next.phase (s.execute P.recorded phase c 0 ts) = (o, s') ∧
      PhaseLog phase c 0 ts o calls log ∧ s'.state.calls = s.state.calls ++ calls ∧
      Says c.mode s s' (log ++ Event.closing next.phase o) ∧ (o = .ok () → s'.At next) := by
  obtain ⟨calls, log, hlog, hcalls, hsays⟩ := execute_log P phase c ts 0 s
  have hat := h.execute P.recorded phase c 0 ts
  rcases hrun : s.execute P.recorded phase c 0 ts with ⟨o, s₁⟩
  rw [hrun] at hlog hcalls hsays hat
  have hclosing := says_conclude c.mode next.phase o s₁
  refine ⟨o, (conclude c.mode next.phase (o, s₁)).2, calls, log, ?_, hlog, ?_, hsays.trans hclosing, ?_⟩
  · cases o <;> rfl
  · rw [← hcalls]
    cases o <;> rfl
  · rintro rfl
    exact hat.enter hnext c.mode

/-! ### The steps of applying -/

theorem says_announced (s : Session σ) :
    Says s.context.mode s s.announced (s.document.overrides.map .overridden) := by
  have hfold : ∀ (os : List Override) (s' : Session σ), Says s.context.mode s'
      (os.foldl (fun s' o => s'.emit s.context.mode (.overridden o)) s') (os.map .overridden) := by
    intro os
    induction os with
    | nil => exact says_refl s.context.mode
    | cons o os ih => exact fun s' => (says_emit s.context.mode s' (.overridden o)).trans (ih _)
  have hsays := (hfold s.document.overrides s).trans
    (says_trace s.context.mode _ (Graph.resolveLines s.document))
  rwa [List.append_nil] at hsays

theorem bindCount_eq_countP (c : Context) (env : Environment) (g : Graph) (p : Plan) :
    c.bindCount env g + p.bindCount c env =
      (fields g ++ p.tasks.flatMap fun t => fields t.target).countP fun f => c.eval env f ≠ f := by
  have hfold : ∀ (ts : List Task) (n : Nat), ts.foldl (fun n t => n + c.bindCount env t.target) n =
      n + (ts.flatMap fun t => fields t.target).countP fun f => c.eval env f ≠ f := by
    intro ts
    induction ts with
    | nil => simp
    | cons t ts ih =>
      intro n
      rw [List.foldl_cons, ih, List.flatMap_cons, List.countP_append, Nat.add_assoc]
      rfl
  rw [Plan.bindCount, hfold, Nat.zero_add, List.countP_append]
  rfl

theorem says_resolve {s : Session σ} {g : Graph} (h : s.phase = .idle)
    (hr : Graph.resolve s.document = .ok g) :
    Says s.context.mode s s.resolve.2 (s.document.overrides.map .overridden ++
      [.resolved (Plan.ofGraph g).tier (Plan.ofGraph g).size, .entered .resolved]) := by
  rw [resolve_eq_resolvedTo h hr]
  exact (says_announced s).trans ((says_trace s.context.mode _ (Plan.ofGraph g).lines).trans
    ((says_emit s.context.mode _ _).trans (says_enter s.context.mode _ .resolved)))

theorem validate_log (P : Provisioner σ) (c : Context) {s : Session (Recorded σ)} {g : Graph} {p : Plan}
    (h : s.At (.resolved g p)) :
    ∃ o s' calls log, s.validate P.recorded c = (o, s') ∧
      PhaseLog .validate c 0 (p.bind c s.env).tasks o calls log ∧ s'.state.calls = s.state.calls ++ calls ∧
      Says c.mode s s' (.bound (c.bindCount s.env g + p.bindCount c s.env) ::
        (log ++ Event.closing .validated o)) ∧
      (o = .ok () → s'.At (.validated (c.bind s.env g) (p.bind c s.env))) := by
  rw [validate_of_resolved h.phase h.plan]
  obtain ⟨o, s', calls, log, heq, hlog, hcalls, hsays, hat⟩ := conclude_execute_log P .validate c
    (p.bind c s.env).tasks (h.bound c) (.validated _ _) rfl
  have hbound : Says c.mode s (s.bound c p) [.bound (c.bindCount s.env s.graph + p.bindCount c s.env)] :=
    (says_trace c.mode s _).trans (says_emit c.mode _ _)
  rw [h.graph] at hbound
  exact ⟨o, s', calls, log, heq, hlog, hcalls, hbound.trans hsays, hat⟩

theorem run_log (P : Provisioner σ) (c : Context) {s : Session (Recorded σ)} {g : Graph} {p : Plan}
    (h : s.At (.validated g p)) :
    ∃ o s' calls log, s.run P.recorded c = (o, s') ∧ PhaseLog .run c 0 p.tasks o calls log ∧
      s'.state.calls = s.state.calls ++ calls ∧
      Says c.mode s s' ((if p.size = 0 then [.nothingToDo] else []) ++ (log ++ Event.closing .applied o)) ∧
      (o = .ok () → s'.At (.applied g p)) := by
  have hnote : Says c.mode s (if p.isEmpty then s.emit c.mode .nothingToDo else s)
        (if p.size = 0 then [.nothingToDo] else []) ∧
      (if p.isEmpty then s.emit c.mode .nothingToDo else s).state = s.state := by
    unfold Plan.size Plan.isEmpty
    cases p.tasks with
    | nil => exact ⟨says_emit c.mode s .nothingToDo, rfl⟩
    | cons t ts => exact ⟨says_refl c.mode s, rfl⟩
  obtain ⟨o, s', calls, log, heq, hlog, hcalls, hsays, hat⟩ := conclude_execute_log P .run c p.tasks
    (h.noted c) (.applied g p) rfl
  rw [run_of_validated h.phase h.plan]
  exact ⟨o, s', calls, log, heq, hlog, by rw [hcalls, hnote.2], hnote.1.trans hsays, hat⟩

end Session

/-! ### Applying -/

open Session

/-- What is said before the first task of a document with the graph `g`: what imports replaced, the plan, and how
many fields of the graph and of the targets change when they are bound to `c`. -/
def Document.opening (d : Document) (env : Environment) (c : Context) (g : Graph) : List Event :=
  let p := Plan.ofGraph g
  d.overrides.map .overridden ++ [.resolved p.tier p.size, .entered .resolved,
    .bound ((fields g ++ p.tasks.flatMap fun t => fields t.target).countP fun f => c.eval env f ≠ f)]

/-- All that applying a document with the context `c` can come to: the answer, the calls and the events. -/
inductive ApplyLog (d : Document) (env : Environment) (c : Context) :
    Except Error Report → List Call → List Event → Prop
  | unresolvable {e : Error} (hr : Graph.resolve d = .error e) :
    ApplyLog d env c (.error e) [] (d.overrides.map .overridden ++ [.entered .failed, .failed e.message])
  | invalid {g : Graph} {e : Error} {calls : List Call} {log : List Event} (hr : Graph.resolve d = .ok g)
      (h : PhaseLog .validate c 0 ((Plan.ofGraph g).bind c env).tasks (.error e) calls log) :
    ApplyLog d env c (.error e) calls (d.opening env c g ++ log ++ [.entered .failed, .failed e.message])
  | validated {g : Graph} {o : Except Error Unit} {calls : List Call} {log : List Event}
      (hr : Graph.resolve d = .ok g)
      (h : PhaseLog .run c 0 ((Plan.ofGraph g).bind c env).tasks o calls log) :
    ApplyLog d env c (o.map fun _ => ⟨(Plan.ofGraph g).tier, (Plan.ofGraph g).size, c.mode⟩)
      (passed .validate c ((Plan.ofGraph g).bind c env).tasks ++ calls)
      (d.opening env c g ++ Event.passes .validate 0 ((Plan.ofGraph g).bind c env).tasks ++ [.entered .validated]
        ++ (if (Plan.ofGraph g).size = 0 then [.nothingToDo] else []) ++ log ++ Event.closing .applied o)

theorem Document.opening_append (d : Document) (env : Environment) (c : Context) (g : Graph) (es : List Event) :
    d.overrides.map .overridden ++ [.resolved (Plan.ofGraph g).tier (Plan.ofGraph g).size, .entered .resolved] ++
        .bound (c.bindCount env g + (Plan.ofGraph g).bindCount c env) :: es =
      d.opening env c g ++ es := by
  rw [bindCount_eq_countP]
  simp [opening]

namespace Session

theorem says_applying (mode : Mode) (s : Session σ) : Says mode s s.applying [] := says_trace mode s _

/-- The report is on the plan as it is stored by then, which binding has left with its tier and its size. -/
theorem report_of_applied {o : Except Error Unit} {s : Session σ} {g : Graph} {p : Plan} {c : Context}
    {env : Environment} (h : o = .ok () → s.At (.applied g (p.bind c env))) (mode : Mode) :
    (o.map fun _ => s.report mode) = o.map fun _ => ⟨p.tier, p.size, mode⟩ := by
  cases o with
  | error e => rfl
  | ok u =>
    obtain ⟨htier, hsize, -⟩ := p.bind_keeps c env
    simp only [Except.map, (h rfl).report rfl, htier, hsize]

theorem apply_log (P : Provisioner σ) {s : Session (Recorded σ)} (h : s.phase = .idle) :
    ∃ calls log, ApplyLog s.document s.env s.context (s.apply P.recorded).1 calls log ∧
      (s.apply P.recorded).2.state.calls = s.state.calls ++ calls ∧
      Says s.context.mode s (s.apply P.recorded).2 log := by
  cases hr : Graph.resolve s.document with
  | error e =>
    have hcalls : s.resolve.2.state.calls = s.state.calls ++ [] := by
      rw [resolve_of_unresolvable h hr, List.append_nil]
    rw [resolve_eq_fail h hr] at hcalls
    rw [apply_of_unresolved (resolve_eq_fail h hr)]
    exact ⟨[], _, .unresolvable hr, hcalls, (says_announced s).trans (says_fail s.context.mode _ e)⟩
  | ok g =>
    obtain ⟨h₁, hat, henv, hstate, hcontext⟩ := resolve_keeps h hr
    have hopened := (says_resolve h hr).trans (says_applying s.context.mode s.resolve.2)
    obtain ⟨o, s₂, calls, log, h₂, hlog, hcalls, hsays, hs₂⟩ :=
      validate_log P s.context hat.applying
    rw [show s.resolve.2.applying.env = s.env from henv] at hlog hsays hs₂
    rw [show s.resolve.2.applying.state = s.state from hstate] at hcalls
    have hsaid := hopened.trans hsays
    rw [List.append_nil, Document.opening_append] at hsaid
    rw [← hcontext] at h₂
    cases o with
    | error e =>
      rw [apply_of_invalid h₁ h₂]
      refine ⟨calls, _, .invalid hr hlog, hcalls, ?_⟩
      rwa [← List.append_assoc] at hsaid
    | ok u =>
      obtain ⟨o', s₃, calls', log', h₃, hlog', hcalls', hsays', hs₃⟩ := run_log P s.context (hs₂ rfl)
      cases hlog
      rw [apply_of_validated h₁ h₂, hcontext, h₃, report_of_applied hs₃]
      refine ⟨_, _, .validated hr hlog', ?_, ?_⟩
      · rw [hcalls', hcalls, List.append_assoc]
      · rw [(Plan.bind_keeps (Plan.ofGraph g) s.context s.env).2.1] at hsays'
        simpa only [Event.closing, List.append_assoc] using hsaid.trans hsays'

/-- Applying a new session with the document `d`: the answer, the calls and the events are one of the ways of
`ApplyLog`, and every event and the report are of one mode, which is live just when it is overridden to be so, or not
overridden and the document's variable for it expands to a word for live. -/
theorem apply_events (P : Provisioner σ) (d : Document) (env : Environment) (live : Option Bool) (x : σ) :
    let s := start d env live x
    let c := s.context
    let r := s.recording.apply P.recorded
    s.apply P = (r.1, r.2.mapState Recorded.inner) ∧
      (∃ log, ApplyLog d env c (s.apply P).1 r.2.state.calls log ∧
        (s.apply P).2.events = log.map fun e => (c.mode, e)) ∧
      (c.mode.label = "LIVE" ↔ live = some true ∨ live = none ∧ ∃ v, d.vars.get? "LIVE_MODE" = some v ∧
        env.expand v ∈ ["1", "t", "T", "TRUE", "true", "True"]) := by
  intro s c r
  have hsame : s.apply P = (r.1, r.2.mapState Recorded.inner) :=
    apply_mapState P.recorded_carries s.recording
  obtain ⟨calls, log, hlog, hcalls, hsays⟩ := apply_log P (s := s.recording) rfl
  have hcalls : r.2.state.calls = calls := hcalls
  refine ⟨hsame, ⟨log, ?_, ?_⟩, ?_⟩
  · rw [hsame, hcalls]
    exact hlog
  · rw [hsame]
    exact hsays
  · have hlabel : c.mode.label = "LIVE" ↔ c.mode = .live := by
      cases c.mode <;> simp [Mode.label]
    rw [hlabel]
    exact s.mode_context

end Session

end Rollout
