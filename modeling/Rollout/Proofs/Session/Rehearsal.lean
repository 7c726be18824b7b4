import Rollout.Cli.Run
import Rollout.Proofs.Session.EventLog

/-! A rehearsal that only validates comes to the same as one that goes on and applies. How a phase ends depends on the
state of the provisioner and not on what was said before, so both validate alike; and what is left of applying cannot
fail, since a rehearsal lets every task run. -/

namespace Rollout

variable {σ : Type}

namespace Session

/-! ### Validating and applying, with any provisioner -/

theorem execute_answer (P : Provisioner σ) (phase : TaskPhase) (c : Context) (ts : List Task) :
    ∀ (index : Nat) {s s' : Session σ}, s.state = s'.state →
      (s.execute P phase c index ts).1 = (s'.execute P phase c index ts).1 := by
  induction ts with
  | nil => exact fun _ _ _ _ => rfl
  | cons t ts ih =>
    intro index s s' h
    cases hr : (P.attempt phase t c s.state).result with
    | error e => rw [execute_cons_error hr, execute_cons_error (h ▸ hr)]
    | ok u =>
      rw [execute_cons_ok hr, execute_cons_ok (h ▸ hr)]
      exact ih (index + 1) (by simp [emit, handed, trace, h])

theorem execute_error (P : Provisioner σ) (phase : TaskPhase) (c : Context) (ts : List Task) {e : Error} :
    ∀ (index : Nat) (s : Session σ), (s.execute P phase c index ts).1 = .error e →
      ∃ k description te, e = .task phase k description te := by
  induction ts with
  | nil =>
    intro index s h
    cases h
  | cons t ts ih =>
    intro index s h
    cases hr : (P.attempt phase t c s.state).result with
    | error te =>
      rw [execute_cons_error hr] at h
      cases h
      exact ⟨index, t.description, te, rfl⟩
    | ok u =>
      rw [execute_cons_ok hr] at h
      exact ih (index + 1) _ h

theorem execute_of_passing {P : Provisioner σ} {phase : TaskPhase} {c : Context} {ts : List Task}
    (h : ∀ t ∈ ts, ∀ x, (P.attempt phase t c x).result = .ok ()) :
    ∀ (index : Nat) (s : Session σ), (s.execute P phase c index ts).1 = .ok () := by
  induction ts with
  | nil => exact fun _ _ => rfl
  | cons t ts ih =>
    intro index s
    rw [execute_cons_ok (h t (List.mem_cons_self ..) s.state)]
    exact ih (fun t' ht => h t' (List.mem_cons_of_mem t ht)) (index + 1) _

theorem conclude_keeps (mode : Mode) (next : RunPhase) (r : Except Error Unit × Session σ) :
    (conclude mode next r).1 = r.1 ∧ (conclude mode next r).2.live = r.2.live ∧
      (conclude mode next r).2.state = r.2.state := by
  obtain ⟨_ | _, s⟩ := r <;> exact ⟨rfl, rfl, rfl⟩

theorem validate_applying (P : Provisioner σ) (c : Context) {s : Session σ} {g : Graph} {p : Plan}
    (h : s.At (.resolved g p)) : (s.applying.validate P c).1 = (s.validate P c).1 := by
  rw [validate_of_resolved h.applying.phase h.applying.plan, validate_of_resolved h.phase h.plan,
    (conclude_keeps ..).1, (conclude_keeps ..).1]
  exact execute_answer P .validate c _ 0 rfl

theorem context_validate (P : Provisioner σ) (c : Context) (s : Session σ) :
    (s.validate P c).2.context = s.context := by
  have hlive : (s.validate P c).2.live = s.live := by
    rcases s.refused_or_planned .resolved with h | ⟨h, p, hp⟩
    · rw [validate_refused h]
    · rw [validate_of_resolved h hp, (conclude_keeps ..).2.1, execute_frame]
      rfl
  obtain ⟨hdocument, henv⟩ := validate_frame P c s
  simp only [context, hlive, hdocument, henv]

theorem check_of_unresolved {s s₁ : Session σ} {e : Error} (h : s.resolve = (.error e, s₁))
    (P : Provisioner σ) : s.check P = (.error e, s₁) := by
  simp [check, h]

theorem check_of_resolved {s s₁ : Session σ} {p : Plan} (h : s.resolve = (.ok p, s₁)) (P : Provisioner σ) :
    (s.check P).1 = (s₁.validate P s₁.context).1.map fun _ => ⟨p.tier, p.size, s₁.context.mode⟩ := by
  have hcontext := context_validate P s₁.context s₁
  simp only [check, h]
  rcases hv : s₁.validate P s₁.context with ⟨e | u, s₂⟩
  · rfl
  · rw [hv] at hcontext
    rw [← hcontext]
    rfl

end Session

/-! ### Rehearsing -/

namespace DryRun

/-- The counts after so many more tasks have come through a phase. -/
def count (x : DryRun) (n : Nat) : TaskPhase → DryRun
  | .validate => { x with validated := x.validated + n }
  | .run => { x with ran := x.ran + n }

theorem count_count (x : DryRun) (n m : Nat) (phase : TaskPhase) :
    (x.count n phase).count m phase = x.count (n + m) phase := by
  cases phase <;> simp [count, Nat.add_assoc]

/-- A task passes validation just when no field of its target is left with an action. -/
theorem attempt_validate {t : Task} {c : Context} {x : DryRun} :
    (provisioner.attempt .validate t c x).result = .ok () ↔ ∀ f ∈ fields t.target, unexpanded f = false := by
  simp only [provisioner]
  cases h : (fields t.target).find? unexpanded with
  | none => simpa using h
  | some f => simpa using ⟨f, List.mem_of_find?_eq_some h, List.find?_some h⟩

theorem state_of_attempt {phase : TaskPhase} {t : Task} {c : Context} {x : DryRun}
    (h : (provisioner.attempt phase t c x).result = .ok ()) :
    (provisioner.attempt phase t c x).state = x.count 1 phase := by
  cases phase with
  | run => rfl
  | validate =>
    simp only [provisioner] at h ⊢
    cases hf : (fields t.target).find? unexpanded with
    | none => rfl
    | some f =>
      rw [hf] at h
      cases h

end DryRun

namespace Session

open DryRun (provisioner)

theorem execute_dryRun_state (phase : TaskPhase) (c : Context) (ts : List Task) :
    ∀ (index : Nat) (s : Session DryRun), (s.execute provisioner phase c index ts).1 = .ok () →
      (s.execute provisioner phase c index ts).2.state = s.state.count ts.length phase := by
  induction ts with
  | nil =>
    intro index s _
    cases phase <;> rfl
  | cons t ts ih =>
    intro index s h
    cases hr : (provisioner.attempt phase t c s.state).result with
    | error e =>
      rw [execute_cons_error hr] at h
      cases h
    | ok u =>
      rw [execute_cons_ok hr] at h ⊢
      rw [ih (index + 1) _ h, List.length_cons, Nat.add_comm, ← DryRun.count_count, ← DryRun.state_of_attempt hr]
      rfl

theorem validate_dryRun (c : Context) {s : Session DryRun} {g : Graph} {p : Plan} (h : s.At (.resolved g p))
    (hok : (s.validate provisioner c).1 = .ok ()) :
    (s.validate provisioner c).2.state = s.state.count p.size .validate ∧
      (s.validate provisioner c).2.At (.validated (c.bind s.env g) (p.bind c s.env)) := by
  rw [validate_of_resolved h.phase h.plan, (conclude_keeps ..).1] at hok
  have hstate := execute_dryRun_state .validate c _ 0 _ hok
  rw [← (p.bind_keeps c s.env).2.1, validate_of_resolved h.phase h.plan]
  refine ⟨?_, ((h.bound c).execute ..).conclude hok (.validated _ _) rfl c.mode⟩
  rw [(conclude_keeps ..).2.2, hstate]
  rfl

/-- Running what a rehearsal has validated goes well and counts every task. -/
theorem run_dryRun (c : Context) {s : Session DryRun} {g : Graph} {p : Plan} (h : s.At (.validated g p)) :
    (s.run provisioner c).1 = .ok () ∧ (s.run provisioner c).2.state = s.state.count p.size .run ∧
      (s.run provisioner c).2.At (.applied g p) := by
  have hok : ((if p.isEmpty then s.emit c.mode .nothingToDo else s).execute provisioner .run c 0 p.tasks).1 = .ok () :=
    execute_of_passing (fun _ _ _ => rfl) 0 _
  rw [run_of_validated h.phase h.plan]
  refine ⟨(conclude_keeps ..).1.trans hok, ?_, ((h.noted c).execute ..).conclude hok (.applied g p) rfl c.mode⟩
  rw [(conclude_keeps ..).2.2, execute_dryRun_state .run c p.tasks 0 _ hok]
  split <;> rfl

/-- What a rehearsal of a new session comes to, whether it only validates or goes on. -/
theorem check_eq_apply {s : Session DryRun} (h : s.phase = .idle) :
    (s.check provisioner).1 = (s.apply provisioner).1 ∧
      (∀ e, (s.apply provisioner).1 = .error e → Graph.resolve s.document = .error e ∨
        ∃ index description te, e = .task .validate index description te) ∧
      ∀ r, (s.apply provisioner).1 = .ok r → ∃ g, Graph.resolve s.document = .ok g ∧
        r = ⟨(Plan.ofGraph g).tier, (Plan.ofGraph g).size, s.context.mode⟩ ∧
        (s.apply provisioner).2.state = (s.state.count r.tasks .validate).count r.tasks .run := by
  cases hr : Graph.resolve s.document with
  | error e =>
    have h₁ := resolve_eq_fail h hr
    rw [check_of_unresolved h₁, apply_of_unresolved h₁]
    exact ⟨rfl, fun e' he => .inl (by cases he; rfl), nofun⟩
  | ok g =>
    obtain ⟨h₁, hat, -, hstate, hcontext⟩ := resolve_keeps h hr
    have hvalidate := validate_applying provisioner s.context hat
    rw [check_of_resolved h₁, hcontext, ← hvalidate]
    rcases hv : s.resolve.2.applying.validate provisioner s.context with ⟨e | u, s₂⟩
    · rw [apply_of_invalid h₁ (hcontext ▸ hv)]
      refine ⟨rfl, fun e' he => .inr ?_, nofun⟩
      cases he
      have herror : (s.resolve.2.applying.validate provisioner s.context).1 = .error e := by rw [hv]
      rw [validate_of_resolved hat.applying.phase hat.applying.plan, (conclude_keeps ..).1] at herror
      exact execute_error provisioner .validate s.context _ 0 _ herror
    · obtain ⟨hs₂, hat₂⟩ := validate_dryRun s.context hat.applying (by rw [hv])
      rw [hv] at hs₂ hat₂
      obtain ⟨hrun, hs₃, hat₃⟩ := run_dryRun s.context hat₂
      -- one report is on the plan that resolving gave, the other on the plan that is stored after the run
      have hreport := report_of_applied (o := (s₂.run provisioner s.context).1) (fun _ => hat₃) s.context.mode
      rw [apply_of_validated h₁ (hcontext ▸ hv), hcontext, hreport, hrun]
      refine ⟨rfl, nofun, fun r hok => ⟨g, rfl, ?_, ?_⟩⟩
      · cases hok
        rfl
      · cases hok
        rw [hs₃, hs₂, (Plan.bind_keeps ..).2.1]
        exact congrArg (fun x => DryRun.count (DryRun.count x _ .validate) _ .run) hstate

end Session

open Session

namespace Cli

theorem value_orchestrate_of_error {w : World} {stdin : Option String} (config : Config) {f : Failure}
    (h : (load w stdin config.document).value = .error f) : (orchestrate w stdin config).value = .error f := by
  simp only [orchestrate, onDocument, h]

theorem value_orchestrate {w : World} {stdin : Option String} (config : Config) {d : Document}
    (h : (load w stdin config.document).value = .ok d) :
    (orchestrate w stdin config).value =
      (rehearse w.env config.validateOnly config.live d).1.mapError .deploy := by
  simp only [orchestrate, onDocument, h]
  rfl

/-- Whatever the source of the document, the environment and the override of the mode: a rehearsal that only validates
has the outcome of one that applies, with the same error of loading, of resolving or of validating a task, or with the
same report; and one that applies has validated and run as many tasks as it reports, which are those of the plan. -/
theorem orchestrate_validateOnly (w : World) (stdin : Option String) (file : String) (live : Option Bool) :
    let applied := orchestrate w stdin ⟨file, false, live⟩
    (orchestrate w stdin ⟨file, true, live⟩).value = applied.value ∧
      (∀ f, applied.value = .error f → (load w stdin file).value = .error f ∨
        ∃ d e, (load w stdin file).value = .ok d ∧ f = .deploy e ∧ (Graph.resolve d = .error e ∨
          ∃ index description te, e = .task .validate index description te)) ∧
      ∀ report, applied.value = .ok report → ∃ d g, (load w stdin file).value = .ok d ∧
        Graph.resolve d = .ok g ∧ report.tier = (Plan.ofGraph g).tier ∧ report.tasks = (Plan.ofGraph g).size ∧
        (rehearse w.env false live d).1 = .ok report ∧
        (rehearse w.env false live d).2.state = ⟨report.tasks, report.tasks⟩ := by
  intro applied
  cases hd : (load w stdin file).value with
  | error f =>
    have hfails : ∀ validateOnly, (orchestrate w stdin ⟨file, validateOnly, live⟩).value = .error f :=
      fun validateOnly => value_orchestrate_of_error ⟨file, validateOnly, live⟩ hd
    rw [show applied.value = _ from hfails false, hfails]
    exact ⟨rfl, fun f' hf => .inl (by cases hf; rfl), nofun⟩
  | ok d =>
    have hvalue : ∀ validateOnly, (orchestrate w stdin ⟨file, validateOnly, live⟩).value =
        (rehearse w.env validateOnly live d).1.mapError .deploy :=
      fun validateOnly => value_orchestrate ⟨file, validateOnly, live⟩ hd
    rw [show applied.value = _ from hvalue false, hvalue]
    obtain ⟨hsame, herror, hok⟩ := check_eq_apply (s := start d w.env live {}) rfl
    have hvalidated : (rehearse w.env true live d).1 = (rehearse w.env false live d).1 := hsame
    refine ⟨by rw [hvalidated], fun f hf => .inr ?_, fun report hreport => ?_⟩
    · obtain ⟨e, he, rfl⟩ := mapError_eq_error.1 hf
      exact ⟨d, e, rfl, rfl, herror e he⟩
    · have hr := mapError_eq_ok.1 hreport
      obtain ⟨g, hg, hrep, hstate⟩ := hok report hr
      refine ⟨d, g, rfl, hg, by rw [hrep], by rw [hrep], hr, hstate.trans ?_⟩
      simp [DryRun.count, start]

end Cli

end Rollout
