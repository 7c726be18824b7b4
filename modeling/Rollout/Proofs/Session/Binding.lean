import Rollout.Proofs.Fault
import Rollout.Proofs.Plan
import Rollout.Proofs.Session.TwoPhase

/-! A session binds its graph and its plan on two ways that come to the same: the targets of the plan are the
entities of the session's own graph, whatever was asked of it. -/

namespace Rollout

variable {σ : Type} {d : Document} {env : Environment}

inductive Stage.Reachable (d : Document) (env : Environment) : Stage → Prop
  | idle : Reachable d env .idle
  | unresolvable {e : Error} (h : Graph.resolve d = .error e) : Reachable d env (.failed none)
  | resolved {g : Graph} (h : Graph.resolve d = .ok g) : Reachable d env (.resolved g (.ofGraph g))
  | validated {g : Graph} (h : Graph.resolve d = .ok g) (c : Context) :
    Reachable d env (.validated (c.bind env g) ((Plan.ofGraph g).bind c env))
  | applied {g : Graph} (h : Graph.resolve d = .ok g) (c : Context) :
    Reachable d env (.applied (c.bind env g) ((Plan.ofGraph g).bind c env))
  | failed {g : Graph} (h : Graph.resolve d = .ok g) (c : Context) :
    Reachable d env (.failed (some (c.bind env g, (Plan.ofGraph g).bind c env)))

theorem Moves.reachable {st st' : Stage} {log log' : List Call} {o : Except Error Unit}
    (h : Moves d env st log o st' log') : st.Reachable d env → st'.Reachable d env := by
  induction h with
  | refused op stage log => exact id
  | unresolvable log h => exact fun _ => .unresolvable h
  | resolved log h => exact fun _ => .resolved h
  | validated c g p log =>
    rintro (_ | _ | hg)
    exact .validated hg c
  | invalid g log h =>
    rintro (_ | _ | hg)
    exact .failed hg _
  | applied c g p log =>
    rintro (_ | _ | _ | ⟨hg, c'⟩)
    exact .applied hg c'
  | broken g log h =>
    rintro (_ | _ | _ | ⟨hg, c'⟩)
    exact .failed hg c'
  | seq _ _ ih₁ ih₂ => exact fun hst => ih₂ (ih₁ hst)

namespace Stage.Reachable

/-- Past resolving, graph and plan are those of the document, bound to one context. -/
theorem bound {st : Stage} (h : st.Reachable d env) (hphase : st.phase ≠ .resolved) {g : Graph} {p : Plan}
    (hst : st.reached = some (g, p)) :
    ∃ g₀ c, Graph.resolve d = .ok g₀ ∧ g = c.bind env g₀ ∧ p = (Plan.ofGraph g₀).bind c env := by
  cases h with
  | idle => cases hst
  | unresolvable h => cases hst
  | resolved h => exact absurd rfl hphase
  | validated h c | applied h c | failed h c =>
    cases hst
    exact ⟨_, c, h, rfl, rfl⟩

theorem fits {st : Stage} (h : st.Reachable d env) {g : Graph} {p : Plan} (hst : st.reached = some (g, p)) :
    p.Fits g := by
  by_cases hphase : st.phase = .resolved
  · cases h with
    | resolved h =>
      cases hst
      exact Plan.fits_ofGraph g
    | _ => cases hphase
  · obtain ⟨g₀, c, -, rfl, rfl⟩ := h.bound hphase hst
    exact (Plan.fits_ofGraph g₀).bind c env

end Stage.Reachable

namespace Session

theorem performAll_reachable (P : Provisioner σ) (d : Document) (env : Environment) (live : Option Bool) (x : σ)
    (rs : List Request) : ∃ st, ((start d env live x).performAll P rs).At st ∧ st.Reachable d env := by
  have hs := performAll_mapState P.recorded_carries (start d env live (⟨x, []⟩ : Recorded σ)) rs
  obtain ⟨⟨st, hst, hr⟩, -, -⟩ := performAll_keeps P (I := fun st _ => st.Reachable d env) Moves.reachable rs
    (start d env live (⟨x, []⟩ : Recorded σ)) .idle (start_at ..) rfl rfl .idle
  exact ⟨st, hs ▸ hst.mapState Recorded.inner, hr⟩

/-- Planning and binding commute, for every graph; and whatever was asked of a session, the targets of its plan are
the entities of its own graph, past resolving in the form that one context has given to both. -/
theorem plan_bind_comm :
    (∀ (g : Graph) (c : Context) (env : Environment),
      (Plan.ofGraph (c.bind env g)).tier = ((Plan.ofGraph g).bind c env).tier ∧
        (Plan.ofGraph (c.bind env g)).tasks.map Task.target =
          ((Plan.ofGraph g).bind c env).tasks.map Task.target ∧
        ((Plan.ofGraph g).tier ≠ .containers →
          (Plan.ofGraph (c.bind env g)).tasks.map Task.description =
            ((Plan.ofGraph g).bind c env).tasks.map Task.description)) ∧
      ∀ (P : Provisioner σ) (d : Document) (env : Environment) (live : Option Bool) (x : σ) (rs : List Request),
        let s := (start d env live x).performAll P rs
        ∀ p, s.plan? = some p →
          p.tier = (Plan.ofGraph s.graph).tier ∧ p.tasks.map Task.target = p.tier.targets s.graph ∧
            (s.phase ≠ .resolved → ∃ g c, Graph.resolve d = .ok g ∧ s.graph = c.bind env g ∧
              p = (Plan.ofGraph g).bind c env) := by
  constructor
  · intro g c env
    have hbound := (Plan.fits_ofGraph g).bind c env
    have hchosen := Plan.fits_ofGraph (c.bind env g)
    refine ⟨hbound.tier.symm, ?_, fun h => Plan.descriptions_bind h c env⟩
    rw [hchosen.targets, hbound.targets, hbound.tier]
  · intro P d env live x rs s p hp
    obtain ⟨st, hst, hreach⟩ := performAll_reachable P d env live x rs
    have hp := hst.reached_of_plan hp
    exact ⟨(hreach.fits hp).tier, (hreach.fits hp).targets, fun hphase => hreach.bound (hst.phase ▸ hphase) hp⟩

def warehouse : Document where
  vars := .ofList [("kind", "$TIER")]
  disks := .ofList [("data", { diskType := some "\x7b\x7b.kind\x7d\x7d", sizeGb := some 10 })]

def warehouseEnv : Environment := .ofList [("TIER", "ssd")]

/-- One container, whose image quotes a variable in its description. -/
def pier : Graph where
  containers := .ofList [("proxy", { name := "proxy", image := some "\x7b\x7b.kind\x7d\x7d", targetImage := none })]

theorem plan_bind_comm_warehouse :
    (∃ p, ((start warehouse warehouseEnv none {}).performAll DryRun.provisioner [.apply]).plan? = some p ∧
      p.tasks.map (fun t => fields t.target) = [["ssd"]] ∧
      p.tasks.map Task.target =
        p.tier.targets ((start warehouse warehouseEnv none {}).performAll DryRun.provisioner [.apply]).graph) ∧
    ∃ g, Graph.resolve warehouse = .ok g ∧ (Plan.ofGraph g).tier ≠ .containers ∧
      let c := Context.ofVars warehouseEnv warehouse.vars
      (Plan.ofGraph (c.bind warehouseEnv g)).tasks.map Task.description =
          ((Plan.ofGraph g).bind c warehouseEnv).tasks.map Task.description ∧
        (Plan.ofGraph (c.bind warehouseEnv pier)).tasks.map Task.description ≠
          ((Plan.ofGraph pier).bind c warehouseEnv).tasks.map Task.description := by
  constructor
  · have h : (((start warehouse warehouseEnv none {}).performAll DryRun.provisioner [.apply]).plan?.map fun p =>
        p.tasks.map fun t => fields t.target) = some [["ssd"]] := by decide +kernel
    obtain ⟨p, hp, hf⟩ := Option.map_eq_some_iff.1 h
    exact ⟨p, hp, hf, (plan_bind_comm.2 DryRun.provisioner warehouse warehouseEnv none {} [.apply] p hp).2.1⟩
  · have h : ((Graph.resolve warehouse).toOption.map fun g => decide ((Plan.ofGraph g).tier = .containers)) =
        some false := by decide +kernel
    obtain ⟨g, hg, ht⟩ := exists_of_map_toOption h
    have ht : (Plan.ofGraph g).tier ≠ .containers := of_decide_eq_false ht
    exact ⟨g, hg, ht, ((@plan_bind_comm DryRun).1 g _ warehouseEnv).2.2 ht, by decide +kernel⟩

end Session

end Rollout
