import Rollout.Cli.Run
import Rollout.Proofs.Session.Lifecycle

/-! What the plan command shows is what applying does. The two choose and bind the plan apart from each other, and a
session may have its mode overridden; but binding reads the variables of a context and never its mode. -/

namespace Rollout

variable {σ : Type}

open Call

/-- The plan that is shown for a document, bound to the document's own variables. -/
def Cli.planned (env : Environment) (d : Document) : Except Error Plan :=
  (Graph.resolve d).map fun g => (Plan.ofGraph g).bind (Context.ofVars env d.vars) env

theorem Cli.planned_eq_error {env : Environment} {d : Document} {e : Error} :
    Cli.planned env d = .error e ↔ Graph.resolve d = .error e := by
  unfold planned
  cases Graph.resolve d <;> simp [Except.map]

theorem Cli.value_plan (env : Environment) (file : String) (json : Bool) (d : Document) :
    (Cli.plan env file json d).value = ((Cli.planned env d).mapError .deploy).map fun p =>
      if json then Data.jsonPretty 0 p.encode ++ "\n" else p.listing file (Context.ofVars env d.vars).mode := by
  unfold plan planned
  cases Graph.resolve d <;> rfl

namespace Session

theorem resolve_answer {s : Session σ} (h : s.phase = .idle) :
    s.resolve.1 = (Graph.resolve s.document).map .ofGraph := by
  cases hr : Graph.resolve s.document with
  | error e =>
    rw [resolve_of_unresolvable h hr]
    rfl
  | ok g =>
    rw [resolve_of_resolvable h hr]
    rfl

theorem resolve_eq_error {s : Session σ} (h : s.phase = .idle) {e : Error} :
    s.resolve.1 = .error e ↔ Graph.resolve s.document = .error e := by
  rw [resolve_answer h]
  cases Graph.resolve s.document <;> simp [Except.map]

theorem bind_context (s : Session σ) (p : Plan) :
    p.bind s.context s.env = p.bind (Context.ofVars s.env s.document.vars) s.env := by
  unfold context
  cases s.live <;> rfl

theorem apply_report {P : Provisioner σ} {s : Session σ} {r : Report} (h : (s.apply P).1 = .ok r) :
    ∃ mode, r = (s.apply P).2.report mode := by
  rcases h₁ : s.resolve with ⟨e | p, s₁⟩
  · rw [apply_of_unresolved h₁] at h
    cases h
  rcases h₂ : s₁.applying.validate P s₁.context with ⟨e | u, s₂⟩
  · rw [apply_of_invalid h₁ h₂] at h
    cases h
  · rw [apply_of_validated h₁ h₂] at h ⊢
    obtain ⟨u, -, rfl⟩ := map_eq_ok.1 h
    exact ⟨s₁.context.mode, rfl⟩

end Session

/-- The tasks that applying hands over are the first of the plan in either phase, and all of them if it goes well. -/
theorem Advances.tasks_of_apply {d : Document} {env : Environment} {own : Context} {o : Except Error Unit}
    {st : Stage} {calls : List Call} (h : Advances d env own .apply .idle o st calls) {g : Graph}
    (hr : Graph.resolve d = .ok g) :
    (∀ phase, (ofPhase phase calls).map task <+: ((Plan.ofGraph g).bind own env).tasks) ∧
      (o = .ok () → ∀ phase, (ofPhase phase calls).map task = ((Plan.ofGraph g).bind own env).tasks) := by
  cases h with
  | unresolvable hq hr' =>
    rw [hr] at hr'
    cases hr'
  | applyInvalid hr' hp =>
    obtain rfl := Except.ok.inj (hr.symm.trans hr')
    exact ⟨hp.twoPhase_of_validate.ordered, nofun⟩
  | applyBroken hr' hp =>
    obtain rfl := Except.ok.inj (hr.symm.trans hr')
    exact ⟨hp.twoPhase_of_run.ordered, nofun⟩
  | applied hr' =>
    obtain rfl := Except.ok.inj (hr.symm.trans hr')
    have hall : PhaseCalls .run own 0 ((Plan.ofGraph g).bind own env).tasks (.ok ()) _ := .all
    refine ⟨hall.twoPhase_of_run.ordered, fun _ phase => ?_⟩
    cases phase with
    | validate => rw [hall.ofPhase_validate, tasks_passed]
    | run => rw [hall.ofPhase_run, tasks_passed]

theorem Advances.plan_of_apply {d : Document} {env : Environment} {own : Context} {st : Stage} {calls : List Call}
    (h : Advances d env own .apply .idle (.ok ()) st calls) {g : Graph} (hr : Graph.resolve d = .ok g) :
    st.plan? = some ((Plan.ofGraph g).bind own env) := by
  cases h with
  | applied hr' =>
    obtain rfl := Except.ok.inj (hr.symm.trans hr')
    rfl

namespace Session

/-- For every document, environment, override of the mode and provisioner: the plan command fails just when applying
fails to resolve, with the same error and before any call; and otherwise applying hands the first tasks of the plan
shown to the provisioner in either phase, and all of them if it goes well, as its report says. -/
theorem apply_follows_plan (P : Provisioner σ) (d : Document) (env : Environment) (live : Option Bool) (x : σ) :
    let s := start d env live x
    let r := s.recording.apply P.recorded
    s.apply P = (r.1, r.2.mapState Recorded.inner) ∧
      (∀ file json, (Cli.plan env file json d).value = ((Cli.planned env d).mapError .deploy).map fun p =>
        if json then Data.jsonPretty 0 p.encode ++ "\n"
        else p.listing file (Context.ofVars env d.vars).mode) ∧
      (∀ e, Cli.planned env d = .error e ↔
        s.resolve.1 = .error e ∧ s.apply P = (.error e, s.resolve.2) ∧ r.2.state.calls = []) ∧
      ∀ p, Cli.planned env d = .ok p →
        (∀ phase, (ofPhase phase r.2.state.calls).map task <+: p.tasks) ∧
          ∀ report, (s.apply P).1 = .ok report →
            (∀ phase, (ofPhase phase r.2.state.calls).map task = p.tasks) ∧
              report.tier = p.tier ∧ report.tasks = p.size := by
  intro s r
  have hsame : s.apply P = (r.1, r.2.mapState Recorded.inner) :=
    apply_mapState P.recorded_carries s.recording
  obtain ⟨calls, st, hat, hadv, hcalls⟩ :=
    apply_advances P (s := s.recording) ((start_at d env live x).mapState _)
  have hcalls : r.2.state.calls = calls := hcalls
  refine ⟨hsame, fun file json => Cli.value_plan env file json d, ?_, ?_⟩
  · intro e
    rw [Cli.planned_eq_error]
    constructor
    · intro hr
      have hresolve : s.resolve.1 = .error e := (resolve_eq_error rfl).2 hr
      exact ⟨hresolve, apply_of_unresolved (Prod.ext hresolve rfl) P,
        hcalls.trans (hadv.of_unresolvable hr).2.2⟩
    · rintro ⟨hresolve, -⟩
      exact (resolve_eq_error rfl).1 hresolve
  · intro p hp
    obtain ⟨g, hr, rfl⟩ := map_eq_ok.1 hp
    obtain ⟨hfirst, hall⟩ := hadv.tasks_of_apply hr
    have hbind := bind_context s.recording (Plan.ofGraph g)
    rw [hbind] at hfirst hall
    rw [hcalls]
    refine ⟨hfirst, fun report hreport => ?_⟩
    have hok : r.1 = .ok report := by rw [← hreport, hsame]
    have hverdict : verdict r.1 = .ok () := by rw [hok]; rfl
    -- the report is on the plan that is stored by then, and that is the one shown
    obtain ⟨mode, rfl⟩ := apply_report hreport
    have hplan := Advances.plan_of_apply (hverdict ▸ hadv) hr
    rw [hsame, (hat.mapState Recorded.inner).report hplan, hbind]
    exact ⟨hall hverdict, rfl, rfl⟩

end Session

end Rollout
