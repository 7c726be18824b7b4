import Rollout.Proofs.Frame
import Rollout.Proofs.Session.Binding
import Rollout.Proofs.Session.Rehearsal

/-! A variable that nothing refers to does not matter. Of a context, evaluating a text reads the variables that the text
refers to as a template, and a rehearsal reads the mode; so two documents that differ in a variable of which no field of
their graph makes use go through the same stages and say the same, though they trace how many variables they have. -/

namespace Rollout

variable {σ : Type}

namespace Template

variable {lookup lookup' : String → Option String} {v s : String}

/-- The text is a template, and one of its actions is a reference to the variable. A text that is no template refers to
nothing, whatever names it holds. -/
def RefersTo (v s : String) : Prop := ∃ segments, Written segments s.toList ∧ .var v ∈ segments

theorem refersTo_of_parse {segments : List Segment} (h : parse s = .ok segments) :
    RefersTo v s ↔ .var v ∈ segments := by
  have hw : Written segments s.toList := written_of_segmentsFrom h
  constructor
  · rintro ⟨segments', hw', hv⟩
    have h' : parse s = .ok segments' := (segmentsFrom_eq_ok 0).2 hw'
    cases h.symm.trans h'
    exact hv
  · exact fun hv => ⟨segments, hw, hv⟩

theorem not_refersTo_of_parse {e : TemplateError} (h : parse s = .error e) : ¬ RefersTo v s := by
  rintro ⟨segments, hw, -⟩
  cases h.symm.trans ((segmentsFrom_eq_ok 0).2 hw)

instance (v s : String) : Decidable (RefersTo v s) :=
  match h : parse s with
  | .ok segments => decidable_of_iff (.var v ∈ segments) (refersTo_of_parse h).symm
  | .error _ => .isFalse (not_refersTo_of_parse h)

theorem fill_congr {segments : List Segment} (h : ∀ name, .var name ∈ segments → lookup' name = lookup name) :
    fill lookup' segments = fill lookup segments := by
  induction segments with
  | nil => rfl
  | cons segment segments ih =>
    have hrest := ih fun name hname => h name (List.mem_cons_of_mem _ hname)
    cases segment with
    | text t => rw [fill, fill, hrest]
    | var name => rw [fill, fill, h name (List.mem_cons_self ..), hrest]

/-- Rendering reads the variables that the text refers to, also where it fails. -/
theorem render_congr (h : ∀ name, RefersTo name s → lookup' name = lookup name) :
    render lookup' s = render lookup s := by
  unfold render
  cases hp : parse s with
  | error e => rfl
  | ok segments => exact fill_congr fun name hname => h name ((refersTo_of_parse hp).2 hname)

end Template

/-! ### Binding with contexts that agree -/

/-- The contexts are of one mode and have the same variables, apart from `v`. -/
structure Context.Agrees (v : String) (c c' : Context) : Prop where
  mode : c'.mode = c.mode
  get? : ∀ name, name ≠ v → c'.get? name = c.get? name

section Binding

variable {v : String} {c c' : Context} {α : Type} [Templated α] {a : α}

theorem Context.Agrees.eval (h : c.Agrees v c') (env : Environment) {s : String} (hs : ¬ Template.RefersTo v s) :
    c'.eval env s = c.eval env s := by
  have hrender : Template.render c'.get? s = Template.render c.get? s := by
    refine Template.render_congr fun name hname => h.get? name ?_
    rintro rfl
    exact hs hname
  unfold Context.eval
  rw [hrender]

/-- Frame and fields make up an entity, so functions that agree on its fields rewrite it alike. -/
theorem mapFields_congr [Framed α] [LawfulFramed α] {f f' : String → String} (h : ∀ s ∈ fields a, f' s = f s) :
    mapFields f' a = mapFields f a := by
  have hfields : fields (mapFields f' a) ++ [] = fields (mapFields f a) ++ [] := by
    rw [fields_mapFields, fields_mapFields, List.map_congr_left h]
  exact (fields_append_inj (frame_mapFields f' a) (frame_mapFields f a) hfields).1

theorem Context.Agrees.bind [Framed α] [LawfulFramed α] (h : c.Agrees v c') (env : Environment)
    (ha : ∀ s ∈ fields a, ¬ Template.RefersTo v s) : c'.bind env a = c.bind env a :=
  mapFields_congr fun s hs => h.eval env (ha s hs)

theorem Context.Agrees.bindCount (h : c.Agrees v c') (env : Environment)
    (ha : ∀ s ∈ fields a, ¬ Template.RefersTo v s) : c'.bindCount env a = c.bindCount env a :=
  List.countP_congr fun s hs => by rw [h.eval env (ha s hs)]

theorem Context.Agrees.bind_plan (h : c.Agrees v c') (env : Environment) {p : Plan}
    (hp : ∀ t ∈ p.tasks, ∀ s ∈ fields t.target, ¬ Template.RefersTo v s) : p.bind c' env = p.bind c env := by
  have htasks : p.tasks.map (fun t => { t with target := c'.bind env t.target }) =
      p.tasks.map fun t => { t with target := c.bind env t.target } :=
    List.map_congr_left fun t ht => by rw [h.bind env (hp t ht)]
  rw [Plan.bind, Plan.bind, htasks]

theorem Context.Agrees.bindCount_plan (h : c.Agrees v c') (env : Environment) {p : Plan}
    (hp : ∀ t ∈ p.tasks, ∀ s ∈ fields t.target, ¬ Template.RefersTo v s) :
    p.bindCount c' env = p.bindCount c env :=
  List.foldl_ext _ _ _ fun n t ht => by rw [h.bindCount env (hp t ht)]

/-- The fields of a target are fields of the graph that it is an entity of. -/
theorem Tier.fields_targets {tier : Tier} {g : Graph} {x : Target} (hx : x ∈ tier.targets g) {s : String}
    (hs : s ∈ fields x) : s ∈ fields g := by
  have hfields : fields g = g.disks.values.flatMap fields ++ g.instances.values.flatMap fields
    ++ g.artifacts.values.flatMap fields ++ g.images.values.flatMap fields
    ++ g.containers.values.flatMap fields ++ g.jobs.values.flatMap fields
    ++ g.services.values.flatMap fields ++ g.deploys.flatMap fields := rfl
  simp only [hfields, List.mem_append, List.mem_flatMap]
  cases tier with
  | disksAndArtifacts =>
    rcases List.mem_append.1 hx with hx | hx
    · obtain ⟨e, he, rfl⟩ := List.mem_map.1 hx
      have hs : s ∈ fields e := hs
      grind
    · obtain ⟨e, he, rfl⟩ := List.mem_map.1 hx
      have hs : s ∈ fields e := hs
      grind
  | empty => cases hx
  | _ =>
    obtain ⟨e, he, rfl⟩ := List.mem_map.1 hx
    have hs : s ∈ fields e := hs
    grind

theorem Plan.fields_ofGraph {g : Graph} {t : Task} (ht : t ∈ (Plan.ofGraph g).tasks) {s : String}
    (hs : s ∈ fields t.target) : s ∈ fields g := by
  have hx : t.target ∈ (Plan.ofGraph g).tier.targets g := by
    rw [← Tier.map_target_tasks]
    exact List.mem_map_of_mem ht
  exact Tier.fields_targets hx hs

end Binding

/-! ### Documents that differ in one variable -/

/-- The documents are equal but for the presence or the value of the variable `v`. -/
structure Document.EqualBut (v : String) (d d' : Document) : Prop where
  vars : ∀ name, name ≠ v → d'.vars.get? name = d.vars.get? name
  rest : d' = { d with vars := d'.vars }

namespace Context

theorem get?_ofVars (env : Environment) (vars : Keyed String) (name : String) :
    (ofVars env vars).get? name = (vars.get? name).map env.expand := by
  have hvalues : ∀ (es : List (String × String)) (c : Context),
      (es.foldl (fun c e => c.insert e.1 (env.expand e.2)) c).values =
        (es.map fun e => (e.1, env.expand e.2)).foldl (fun m e => m.insert e.1 e.2) c.values := by
    intro es
    induction es with
    | nil => exact fun _ => rfl
    | cons e es ih => exact fun c => ih (c.insert e.1 (env.expand e.2))
  have hkeys : ((vars.entries.map fun e => (e.1, env.expand e.2)).map Prod.fst).Nodup := by
    simpa [Function.comp_def] using vars.nodup_keys
  rw [get?, ofVars, hvalues, Keyed.get?_foldl_insert name _ hkeys, Keyed.lookup_map fun _ => env.expand]
  exact Option.or_none

end Context

namespace Document.EqualBut

variable {v : String} {d d' : Document}

theorem resolve (h : d.EqualBut v d') : Graph.resolve d' = Graph.resolve d := by
  rw [h.rest]
  rfl

theorem agrees (h : d.EqualBut v d') (hv : v ≠ Context.liveMode) (env : Environment) :
    (Context.ofVars env d.vars).Agrees v (Context.ofVars env d'.vars) where
  mode := by
    rw [Context.mode, Context.mode, Context.flag_ofVars, Context.flag_ofVars, h.vars _ (Ne.symm hv)]
  get? := fun name hname => by
    rw [Context.get?_ofVars, Context.get?_ofVars, h.vars name hname]

end Document.EqualBut

/-! ### Sessions with such documents -/

/-- Of the context, the provisioner reads no more than the mode. -/
def Provisioner.ReadsMode (P : Provisioner σ) : Prop :=
  ∀ phase t c c' x, c'.mode = c.mode → P.attempt phase t c' x = P.attempt phase t c x

theorem DryRun.readsMode : provisioner.ReadsMode := by
  intro phase t c c' x h
  simp only [provisioner, h]

namespace Session

/-- The sessions have come equally far, with one state of the provisioner, and have said the same. They may have traced
different lines. -/
structure Alike (v : String) (s s' : Session σ) : Prop where
  document : s.document.EqualBut v s'.document
  env : s'.env = s.env
  live : s'.live = s.live
  phase : s'.phase = s.phase
  graph : s'.graph = s.graph
  plan : s'.plan? = s.plan?
  state : s'.state = s.state
  events : s'.events = s.events

namespace Alike

variable {v : String} {s s' : Session σ}

theorem context (h : s.Alike v s') (hv : v ≠ Context.liveMode) : s.context.Agrees v s'.context := by
  have hvars := h.document.agrees hv s.env
  unfold Session.context
  rw [h.live, h.env]
  cases s.live with
  | none => exact hvars
  | some live => exact ⟨rfl, hvars.get?⟩

theorem trace (h : s.Alike v s') (ls ls' : List Line) : (s.trace ls).Alike v (s'.trace ls') where
  document := h.document
  env := h.env
  live := h.live
  phase := h.phase
  graph := h.graph
  plan := h.plan
  state := h.state
  events := by
    have hs := says_trace .test s ls
    have hs' := says_trace .test s' ls'
    unfold Says at hs hs'
    rw [hs, hs', h.events]

theorem emit (h : s.Alike v s') (mode : Mode) (e : Event) : (s.emit mode e).Alike v (s'.emit mode e) where
  document := h.document
  env := h.env
  live := h.live
  phase := h.phase
  graph := h.graph
  plan := h.plan
  state := h.state
  events := by
    have hs := says_emit mode s e
    have hs' := says_emit mode s' e
    unfold Says at hs hs'
    rw [hs, hs', h.events]

theorem setState (h : s.Alike v s') (x : σ) : Alike v { s with state := x } { s' with state := x } :=
  ⟨h.document, h.env, h.live, h.phase, h.graph, h.plan, rfl, h.events⟩

theorem setGraph (h : s.Alike v s') (g : Graph) : Alike v { s with graph := g } { s' with graph := g } :=
  ⟨h.document, h.env, h.live, h.phase, rfl, h.plan, h.state, h.events⟩

theorem setPlan (h : s.Alike v s') (p : Plan) : Alike v { s with plan? := some p } { s' with plan? := some p } :=
  ⟨h.document, h.env, h.live, h.phase, h.graph, rfl, h.state, h.events⟩

theorem enter (h : s.Alike v s') (mode : Mode) (next : RunPhase) :
    (s.enter mode next).Alike v (s'.enter mode next) := by
  have hphase : Alike v { s with phase := next } { s' with phase := next } :=
    ⟨h.document, h.env, h.live, rfl, h.graph, h.plan, h.state, h.events⟩
  exact hphase.emit mode (.entered next)

theorem fail (h : s.Alike v s') (mode : Mode) (e : Error) : (s.fail mode e).Alike v (s'.fail mode e) :=
  (h.enter mode .failed).emit mode (.failed e.message)

theorem report (h : s.Alike v s') (mode : Mode) : s'.report mode = s.report mode := by
  rw [Session.report, h.plan, Session.report]

theorem announced (h : s.Alike v s') (hv : v ≠ Context.liveMode) : s.announced.Alike v s'.announced := by
  have hoverrides : s'.document.overrides = s.document.overrides := by rw [h.document.rest]
  have hfold : ∀ (mode : Mode) (os : List Override) {s s' : Session σ}, s.Alike v s' →
      (os.foldl (fun s o => s.emit mode (.overridden o)) s).Alike v
        (os.foldl (fun s o => s.emit mode (.overridden o)) s') := by
    intro mode os
    induction os with
    | nil => exact fun h => h
    | cons o os ih => exact fun h => ih (h.emit mode (.overridden o))
  unfold Session.announced
  rw [hoverrides, (h.context hv).mode]
  exact (hfold s.context.mode s.document.overrides h).trace _ _

end Alike

def SameOutcome {α : Type} (v : String) (r r' : α × Session σ) : Prop := r'.1 = r.1 ∧ r.2.Alike v r'.2

theorem SameOutcome.exists_eq {α : Type} {v : String} {r r' : α × Session σ} (h : SameOutcome v r r') {o : α}
    {s : Session σ} (hr : r = (o, s)) : ∃ s', r' = (o, s') ∧ s.Alike v s' := by
  subst hr
  exact ⟨r'.2, Prod.ext h.1 rfl, h.2⟩

namespace Alike

variable {v : String} {s s' : Session σ}

theorem resolve (h : s.Alike v s') (hv : v ≠ Context.liveMode) (hidle : s.phase = .idle) :
    SameOutcome v s.resolve s'.resolve := by
  have hidle' : s'.phase = .idle := h.phase.trans hidle
  have hmode := (h.context hv).mode
  cases hr : Graph.resolve s.document with
  | error e =>
    rw [resolve_eq_fail hidle hr, resolve_eq_fail hidle' (h.document.resolve.trans hr), hmode]
    exact ⟨rfl, (h.announced hv).fail _ e⟩
  | ok g =>
    rw [resolve_eq_resolvedTo hidle hr, resolve_eq_resolvedTo hidle' (h.document.resolve.trans hr)]
    refine ⟨rfl, ?_⟩
    unfold resolvedTo
    rw [hmode]
    have hgraph := (((h.announced hv).trace (Plan.ofGraph g).lines (Plan.ofGraph g).lines).emit s.context.mode
      (.resolved (Plan.ofGraph g).tier (Plan.ofGraph g).size)).setGraph g
    exact (hgraph.enter s.context.mode .resolved).setPlan (.ofGraph g)

section Tasks

variable {P : Provisioner σ} {c c' : Context}

theorem execute (hP : P.ReadsMode) (hmode : c'.mode = c.mode) (phase : TaskPhase) (ts : List Task) :
    ∀ (index : Nat) {s s' : Session σ}, s.Alike v s' →
      SameOutcome v (s.execute P phase c index ts) (s'.execute P phase c' index ts) := by
  induction ts with
  | nil => exact fun _ _ _ h => ⟨rfl, h⟩
  | cons t ts ih =>
    intro index s s' h
    have hattempt : P.attempt phase t c' s'.state = P.attempt phase t c s.state := by
      rw [h.state, hP phase t c c' s.state hmode]
    have hhanded : (s.handed P phase c t).Alike v (s'.handed P phase c' t) := by
      unfold handed
      rw [hattempt]
      exact (h.setState _).trace _ _
    cases hr : (P.attempt phase t c s.state).result with
    | error e =>
      rw [execute_cons_error hr, execute_cons_error (hattempt ▸ hr)]
      exact ⟨rfl, hhanded⟩
    | ok u =>
      rw [execute_cons_ok hr, execute_cons_ok (hattempt ▸ hr), hmode]
      exact ih (index + 1) (hhanded.emit c.mode _)

theorem conclude (mode : Mode) (next : RunPhase) {r r' : Except Error Unit × Session σ}
    (h : SameOutcome v r r') : SameOutcome v (Session.conclude mode next r) (Session.conclude mode next r') := by
  obtain ⟨o, s⟩ := r
  obtain ⟨o', s'⟩ := r'
  obtain ⟨ho, hs⟩ := h
  obtain rfl : o' = o := ho
  cases o' with
  | error e => exact ⟨rfl, hs.fail mode e⟩
  | ok u => exact ⟨rfl, hs.enter mode next⟩

theorem bound (h : s.Alike v s') (hc : c.Agrees v c') {p : Plan}
    (hg : ∀ f ∈ fields s.graph, ¬ Template.RefersTo v f)
    (hp : ∀ t ∈ p.tasks, ∀ f ∈ fields t.target, ¬ Template.RefersTo v f) :
    (s.bound c p).Alike v (s'.bound c' p) := by
  unfold Session.bound
  rw [h.graph, h.env, hc.mode, hc.bind s.env hg, hc.bind_plan s.env hp, hc.bindCount s.env hg,
    hc.bindCount_plan s.env hp]
  exact (((h.trace _ _).setGraph (c.bind s.env s.graph)).setPlan (p.bind c s.env)).emit c.mode _

theorem validate (h : s.Alike v s') (hP : P.ReadsMode) (hc : c.Agrees v c') {g : Graph} {p : Plan}
    (hs : s.At (.resolved g p)) (hg : ∀ f ∈ fields g, ¬ Template.RefersTo v f)
    (hp : ∀ t ∈ p.tasks, ∀ f ∈ fields t.target, ¬ Template.RefersTo v f) :
    SameOutcome v (s.validate P c) (s'.validate P c') := by
  have hbound := h.bound hc (by rw [hs.graph]; exact hg) hp
  rw [validate_of_resolved hs.phase hs.plan,
    validate_of_resolved (h.phase.trans hs.phase) (h.plan.trans hs.plan), h.env, hc.mode, hc.bind_plan s.env hp]
  exact conclude c.mode _ (execute hP hc.mode .validate _ 0 hbound)

/-- Running reads no variable either: what it runs was bound before. -/
theorem run (h : s.Alike v s') (hP : P.ReadsMode) (hmode : c'.mode = c.mode) :
    SameOutcome v (s.run P c) (s'.run P c') := by
  rcases s.refused_or_planned .validated with hs | ⟨hs, p, hp⟩
  · have hs' : s'.phase ≠ .validated ∨ s'.plan? = none := by rwa [h.phase, h.plan]
    rw [run_refused hs, run_refused hs', h.phase]
    exact ⟨rfl, h⟩
  · have hnote : (if p.isEmpty then s.emit c.mode .nothingToDo else s).Alike v
        (if p.isEmpty then s'.emit c.mode .nothingToDo else s') := by
      split
      · exact h.emit c.mode .nothingToDo
      · exact h
    rw [run_of_validated hs hp, run_of_validated (h.phase.trans hs) (h.plan.trans hp), hmode]
    exact conclude c.mode _ (execute hP hmode .run _ 0 hnote)

end Tasks

theorem apply (h : s.Alike v s') (hv : v ≠ Context.liveMode) {P : Provisioner σ} (hP : P.ReadsMode)
    (hidle : s.phase = .idle)
    (hfields : ∀ g, Graph.resolve s.document = .ok g → ∀ f ∈ fields g, ¬ Template.RefersTo v f) :
    SameOutcome v (s.apply P) (s'.apply P) := by
  have hresolve := h.resolve hv hidle
  cases hr : Graph.resolve s.document with
  | error e =>
    have h₁ := resolve_eq_fail hidle hr
    obtain ⟨s₁', h₁', hs₁⟩ := hresolve.exists_eq h₁
    rw [apply_of_unresolved h₁, apply_of_unresolved h₁']
    exact ⟨rfl, hs₁⟩
  | ok g =>
    obtain ⟨h₁, hat, -, -, -⟩ := resolve_keeps hidle hr
    obtain ⟨s₁', h₁', hs₁⟩ := hresolve.exists_eq h₁
    have happlying : s.resolve.2.applying.Alike v s₁'.applying := hs₁.trace _ _
    have hc := hs₁.context hv
    have hvalidate := happlying.validate hP hc hat.applying (hfields g hr) fun t ht f hf =>
      hfields g hr f (Plan.fields_ofGraph ht hf)
    rcases h₂ : s.resolve.2.applying.validate P s.resolve.2.context with ⟨e | u, s₂⟩
    · obtain ⟨s₂', h₂', hs₂⟩ := hvalidate.exists_eq h₂
      rw [apply_of_invalid h₁ h₂, apply_of_invalid h₁' h₂']
      exact ⟨rfl, hs₂⟩
    · obtain ⟨s₂', h₂', hs₂⟩ := hvalidate.exists_eq h₂
      obtain ⟨hanswer, hs₃⟩ := hs₂.run hP hc.mode
      rw [apply_of_validated h₁ h₂, apply_of_validated h₁' h₂', hc.mode, hanswer, hs₃.report]
      exact ⟨rfl, hs₃⟩

end Alike

open DryRun (provisioner)

/-- Rehearsals of two documents that are equal but for a variable, other than the one that sets the mode, to which no
field of their graph refers: for every environment and override of the mode they have the same answer, the same bound
graph and plan, the same counts and the same events, the number of bound fields among them. -/
theorem apply_ignores_unreferenced {v : String} (hv : v ≠ Context.liveMode) {d d' : Document} (hd : d.EqualBut v d')
    (hfields : ∀ g, Graph.resolve d = .ok g → ∀ f ∈ fields g, ¬ Template.RefersTo v f)
    (env : Environment) (live : Option Bool) (x : DryRun) :
    let r := (start d env live x).apply provisioner
    let r' := (start d' env live x).apply provisioner
    r'.1 = r.1 ∧ r'.2.graph = r.2.graph ∧ r'.2.plan? = r.2.plan? ∧ r'.2.phase = r.2.phase ∧
      r'.2.events = r.2.events ∧ r'.2.state = r.2.state := by
  intro r r'
  have hstart : (start d env live x).Alike v (start d' env live x) := ⟨hd, rfl, rfl, rfl, rfl, rfl, rfl, rfl⟩
  obtain ⟨hanswer, halike⟩ := hstart.apply hv DryRun.readsMode rfl hfields
  exact ⟨hanswer, halike.graph, halike.plan, halike.phase, halike.events, halike.state⟩

/-- Two disks. The one is of a kind that a variable says, and the other names a variable in an action that is never
closed. -/
def attic (spare : List (String × String)) : Document where
  vars := .ofList (("kind", "$TIER") :: spare)
  disks := .ofList
    [("data", { diskType := some "\x7b\x7b.kind\x7d\x7d" }), ("scrap", { cloud := some "\x7b\x7b.spare" })]

/-- The text that names the variable is no template, so that it stays whether there is such a variable or not. -/
theorem apply_ignores_unreferenced_attic :
    let r := (start (attic []) warehouseEnv none {}).apply provisioner
    let r' := (start (attic [("spare", "$TIER")]) warehouseEnv none {}).apply provisioner
    r'.1 = r.1 ∧ r'.2.graph = r.2.graph ∧ r'.2.plan? = r.2.plan? ∧ r'.2.events = r.2.events ∧
      r.1 = .error (.task .validate 1 "disk scrap" ⟨"unexpanded template: \x7b\x7b.spare"⟩) ∧
      (.test, .bound 2) ∈ r.2.events ∧ fields r.2.graph = ["ssd", "\x7b\x7b.spare"] := by
  intro r r'
  have hd : (attic []).EqualBut "spare" (attic [("spare", "$TIER")]) := by
    refine ⟨fun name hname => ?_, rfl⟩
    simp [attic, Keyed.ofList, hname]
  have hfields : ((Graph.resolve (attic [])).toOption.map fun g =>
      decide (∀ f ∈ fields g, ¬ Template.RefersTo "spare" f)) = some true := by decide +kernel
  obtain ⟨hanswer, hgraph, hplan, -, hevents, -⟩ := apply_ignores_unreferenced (by decide) hd
    (fun g hg => by
      rw [hg] at hfields
      exact of_decide_eq_true (Option.some.inj hfields)) warehouseEnv none {}
  have hfault : fault? r.1 =
      some (.task .validate 1 "disk scrap" ⟨"unexpanded template: \x7b\x7b.spare"⟩) := by decide +kernel
  exact ⟨hanswer, hgraph, hplan, hevents, fault?_eq_some.1 hfault, by decide +kernel, by decide +kernel⟩

end Session

end Rollout
