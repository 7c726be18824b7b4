import Rollout.Proofs.Evaluation
import Rollout.Proofs.Session.Binding
import Rollout.Proofs.Session.Rehearsal

/-! No template that is left unexpanded passes a rehearsal. A plan counts as validated only when each of its tasks has
passed, with any provisioner; and one that looks for the braces of an action finds them in every field that could not
be rendered, and in no other field whose values bring no brace and no reference along. -/

namespace Rollout

variable {σ : Type}

namespace Session

/-- Every task of a plan that counts as validated has passed validation. -/
def Cleared (P : Provisioner σ) (s : Session σ) : Prop :=
  s.phase = .validated ∨ s.phase = .applied → ∀ t ∈ s.tasks, ∃ c x, (P.attempt .validate t c x).result = .ok ()

variable {P : Provisioner σ} {s : Session σ}

theorem execute_passed {phase : TaskPhase} {c : Context} {ts : List Task} :
    ∀ {index : Nat} {s : Session σ}, (s.execute P phase c index ts).1 = .ok () →
      ∀ t ∈ ts, ∃ x, (P.attempt phase t c x).result = .ok () := by
  induction ts with
  | nil =>
    intro index s h t ht
    cases ht
  | cons t ts ih =>
    intro index s h
    cases hr : (P.attempt phase t c s.state).result with
    | error e =>
      rw [execute_cons_error hr] at h
      cases h
    | ok u =>
      rw [execute_cons_ok hr] at h
      exact List.forall_mem_cons.2 ⟨⟨s.state, hr⟩, ih h⟩

theorem conclude_cleared {mode : Mode} {next : RunPhase} {r : Except Error Unit × Session σ}
    (h : r.1 = .ok () → ∀ t ∈ r.2.tasks, ∃ c x, (P.attempt .validate t c x).result = .ok ()) :
    (conclude mode next r).2.Cleared P := by
  obtain ⟨_ | _, s⟩ := r
  · rintro (h | h) <;> cases h
  · exact fun _ => h rfl

theorem resolve_cleared (h : s.Cleared P) : s.resolve.2.Cleared P := by
  by_cases hphase : s.phase = .idle
  · cases hr : Graph.resolve s.document with
    | error e =>
      rw [resolve_of_unresolvable hphase hr]
      rintro (h | h) <;> cases h
    | ok g =>
      rw [resolve_of_resolvable hphase hr]
      rintro (h | h) <;> cases h
  · rwa [resolve_refused hphase]

theorem validate_cleared (c : Context) (h : s.Cleared P) : (s.validate P c).2.Cleared P := by
  rcases s.refused_or_planned .resolved with hs | ⟨hs, p, hp⟩
  · rwa [validate_refused hs]
  · rw [validate_of_resolved hs hp]
    refine conclude_cleared fun hok => ?_
    rw [execute_frame]
    exact fun t ht => ⟨c, execute_passed hok t ht⟩

theorem run_cleared (c : Context) (h : s.Cleared P) : (s.run P c).2.Cleared P := by
  rcases s.refused_or_planned .validated with hs | ⟨hs, p, hp⟩
  · rwa [run_refused hs]
  · rw [run_of_validated hs hp]
    refine conclude_cleared fun _ => ?_
    rw [execute_frame]
    split <;> exact h (.inl hs)

theorem apply_cleared (h : s.Cleared P) : (s.apply P).2.Cleared P := by
  have h₁ : s.resolve.2.applying.Cleared P := resolve_cleared h
  rcases hr : s.resolve with ⟨e | p, s₁⟩
  · rw [hr] at h₁
    rwa [apply_of_unresolved hr]
  · rw [hr] at h₁
    have h₂ := validate_cleared s₁.context h₁
    rcases hv : s₁.applying.validate P s₁.context with ⟨e | u, s₂⟩
    · rw [hv] at h₂
      rwa [apply_of_invalid hr hv]
    · rw [hv] at h₂
      rw [apply_of_validated hr hv]
      exact run_cleared s₁.context h₂

theorem act_cleared (a : Action) (h : s.Cleared P) : (s.act P a).Cleared P := by
  cases a with
  | setLive live => exact h
  | ask q =>
    cases q with
    | resolve => exact resolve_cleared h
    | validate c => exact validate_cleared c h
    | run c => exact run_cleared c h
    | apply => exact apply_cleared h

theorem actAll_cleared (as : List Action) (h : s.Cleared P) : (s.actAll P as).Cleared P := by
  induction as using List.reverseRecOn with
  | nil => exact h
  | append_singleton as a ih =>
    rw [actAll_snoc]
    exact act_cleared a ih

end Session

namespace DryRun

theorem unexpanded_eq_false {f : String} : unexpanded f = false ↔ Template.Plain f.toList := by
  rw [Template.plain_iff, ← Text.contains_iff, Bool.not_eq_true]
  rfl

theorem attempt_validate_iff {t : Task} {c : Context} {x : DryRun} :
    (provisioner.attempt .validate t c x).result = .ok () ↔ ∀ f ∈ fields t.target, Template.Plain f.toList := by
  simp only [attempt_validate, unexpanded_eq_false]

end DryRun

/-- The fields of a bound plan are the evaluated fields of the plan. -/
theorem Plan.forall_fields_bind {p : Plan} {c : Context} {env : Environment} (Q : String → Prop) :
    (∀ t ∈ (p.bind c env).tasks, ∀ f ∈ fields t.target, Q f) ↔
      ∀ t ∈ p.tasks, ∀ f ∈ fields t.target, Q (c.eval env f) := by
  have hfields : ∀ t : Task, fields (c.bind env t.target) = (fields t.target).map (c.eval env) :=
    fun t => fields_mapFields (c.eval env) t.target
  simp only [bind, List.forall_mem_map, hfields]

namespace Session

open DryRun (provisioner)
open Template (value)

theorem validate_dryRun_iff (c : Context) {s : Session DryRun} {p : Plan} (h : s.phase = .resolved)
    (hp : s.plan? = some p) : (s.validate provisioner c).1 = .ok () ↔
      ∀ t ∈ p.tasks, ∀ f ∈ fields t.target, Template.Plain (c.eval s.env f).toList := by
  rw [validate_of_resolved h hp, (conclude_keeps ..).1]
  refine Iff.trans ?_ (Plan.forall_fields_bind fun f => Template.Plain f.toList)
  constructor
  · intro hok t ht
    obtain ⟨x, hx⟩ := execute_passed hok t ht
    exact DryRun.attempt_validate_iff.1 hx
  · intro hplain
    exact execute_of_passing (fun t ht x => DryRun.attempt_validate_iff.2 (hplain t ht)) 0 _

/-- In every rehearsal, whatever is asked of it: once its plan is validated, every field of the plan was a template of
defined variables before it was bound, and holds no opening braces now. And if every field is such a template, no value
in it has a brace and no rendering a dollar sign, then every task of the plan passes. -/
theorem rehearsal_expands :
    (∀ (d : Document) (env : Environment) (live : Option Bool) (x : DryRun) (as : List Action),
      let s := (start d env live x).actAll provisioner as
      s.phase = .validated ∨ s.phase = .applied → ∃ g c, Graph.resolve d = .ok g ∧
        (start d env live x).ValidatedWith provisioner as c ∧ s.plan? = some ((Plan.ofGraph g).bind c env) ∧
        (∀ t ∈ (Plan.ofGraph g).tasks, ∀ f ∈ fields t.target, ∃ segments, c.Knows f segments) ∧
        ∀ t ∈ ((Plan.ofGraph g).bind c env).tasks, ∀ f ∈ fields t.target, ¬ ['\x7b', '\x7b'] <:+: f.toList) ∧
      ∀ (s : Session DryRun) (c : Context) (p : Plan), s.phase = .resolved → s.plan? = some p →
        (∀ t ∈ p.tasks, ∀ f ∈ fields t.target, ∃ segments, c.Knows f segments ∧
          (∀ name v, .var name ∈ segments → c.get? name = some v → '\x7b' ∉ v.toList) ∧
            '$' ∉ segments.flatMap (value c.get?)) →
        (s.validate provisioner c).1 = .ok () ∧ (s.validate provisioner c).2.phase = .validated ∧
          (s.validate provisioner c).2.state = { s.state with validated := s.state.validated + p.size } := by
  constructor
  · intro d env live x as s hphase
    obtain ⟨st, hst, hbacked⟩ := actAll_backed provisioner (start_at d env live x) as
    have hcleared : s.Cleared provisioner :=
      actAll_cleared (s := start d env live x) as (by rintro (h | h) <;> cases h)
    have hpassed := hcleared hphase
    rw [show s.phase = st.phase from hst.phase] at hphase
    rw [show s.plan? = st.plan? from hst.plan]
    rw [show s.tasks = st.tasks from hst.tasks_eq] at hpassed
    -- of the context only the stage knows, so it is read off there
    cases hbacked with
    | idle | resolved | failed => rcases hphase with hphase | hphase <;> cases hphase
    | @validated g c hr hc | @applied g c hr hc =>
      have hplain : ∀ t ∈ ((Plan.ofGraph g).bind c env).tasks, ∀ f ∈ fields t.target, Template.Plain f.toList := by
        intro t ht
        obtain ⟨c', x', hx⟩ := hpassed t ht
        exact DryRun.attempt_validate_iff.1 hx
      refine ⟨g, c, hr, hc, rfl, fun t ht f hf => ?_, fun t ht f hf => Template.plain_iff.1 (hplain t ht f hf)⟩
      exact Context.knows_of_plain_eval ((Plan.forall_fields_bind fun f => Template.Plain f.toList).1 hplain t ht f hf)
  · intro s c p hs hp hfields
    have hok : (s.validate provisioner c).1 = .ok () := by
      rw [validate_dryRun_iff c hs hp]
      intro t ht f hf
      obtain ⟨segments, hknows, hvalue, hdollar⟩ := hfields t ht f hf
      exact hknows.plain_eval hvalue hdollar
    obtain ⟨hstate, hat⟩ := validate_dryRun c (g := s.graph) ⟨hs, rfl, hp⟩ hok
    exact ⟨hok, hat.phase, hstate⟩

theorem rehearsal_expands_warehouse :
    let s := start warehouse warehouseEnv none ({} : DryRun)
    let c := Context.ofVars warehouseEnv warehouse.vars
    (∃ g c', Graph.resolve warehouse = .ok g ∧ s.ValidatedWith provisioner [.ask .apply] c' ∧
      ∀ t ∈ (Plan.ofGraph g).tasks, ∀ f ∈ fields t.target, ∃ segments, c'.Knows f segments) ∧
    s.resolve.2.plan?.map (fun p => p.tasks.map fun t => fields t.target) = some [["\x7b\x7b.kind\x7d\x7d"]] ∧
      c.Knows "\x7b\x7b.kind\x7d\x7d" [.var "kind"] ∧ (s.resolve.2.validate provisioner c).1 = .ok () := by
  intro s c
  have hknows : c.Knows "\x7b\x7b.kind\x7d\x7d" [.var "kind"] := by
    have hcut : Template.segmentsFrom 0 "\x7b\x7b.kind\x7d\x7d".toList = .ok [.var "kind"] := by decide +kernel
    refine ⟨Template.written_of_segmentsFrom hcut, fun name hname => ?_⟩
    cases List.mem_singleton.1 hname
    decide +kernel
  have hplan : s.resolve.2.plan?.map (fun p => p.tasks.map fun t => fields t.target) =
      some [["\x7b\x7b.kind\x7d\x7d"]] := by decide +kernel
  obtain ⟨p, hp, htasks⟩ := Option.map_eq_some_iff.1 hplan
  refine ⟨?_, hplan, hknows,
    (rehearsal_expands.2 s.resolve.2 c p (by decide +kernel) hp fun t ht f hf => ?_).1⟩
  · obtain ⟨g, c', hr, hc, -, hfields, -⟩ := rehearsal_expands.1 warehouse warehouseEnv none {} [.ask .apply]
      (by decide +kernel)
    exact ⟨g, c', hr, hc, hfields⟩
  · have hfield : fields t.target ∈ p.tasks.map fun t => fields t.target := List.mem_map_of_mem ht
    rw [htasks, List.mem_singleton] at hfield
    rw [hfield, List.mem_singleton] at hf
    subst hf
    refine ⟨_, hknows, fun name v hname hv => ?_, by decide +kernel⟩
    cases List.mem_singleton.1 hname
    have hssd : c.get? "kind" = some "ssd" := by decide +kernel
    cases hssd.symm.trans hv
    decide

end Session

end Rollout
