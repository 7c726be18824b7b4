import Rollout.Cli.Run
import Rollout.Proofs.RoundTrip

/-! Rendering a document keeps its meaning. The text has no imports left and is read back as the document that was
rendered, but for labels that denote no label at all, which are left out. Such labels ask for nothing and offer
nothing however they are written, so the document that is read back resolves to the same graph and the same plan. -/

namespace Rollout

/-! ### Labels that denote nothing -/

def Instance.shown (i : Instance) : Instance := { i with toInstance := i.toInstance.shown }

def Job.shown (j : Job) : Job :=
  { j with toJob := j.toJob.shown, instances := j.instances.map Instance.shown }

def Service.shown (s : Service) : Service := { s with jobs := s.jobs.map Job.shown }

/-- The graph in which labels that denote no label at all are the empty list, wherever they stand. -/
def Graph.shown (g : Graph) : Graph :=
  { g with
    instances := g.instances.map Instance.shown
    jobs := g.jobs.map Job.shown
    services := g.services.map Service.shown
    deploys := g.deploys.map Service.shown }

theorem LabelSet.eq_empty_of_isEmpty {s : LabelSet} (h : s.isEmpty) : s = LabelSet.empty := by
  obtain ⟨ts, _⟩ := s
  obtain rfl := List.isEmpty_iff.1 h
  rfl

/-- Labels denote the same whether they are left out or written. -/
theorem RawLabels.parse_shown (r : RawLabels) : r.shown.parse = r.parse := by
  unfold shown
  split
  · rename_i h
    rw [LabelSet.eq_empty_of_isEmpty h]
    rfl
  · rfl

namespace Resolve

theorem host_shown (disks : Keyed Disk) (key : String) (i : Decl.Instance) :
    host disks key i.shown = (host disks key i).map Instance.shown := by
  have hlabels : i.shown.labels.parse = i.labels.parse := i.labels.parse_shown
  unfold host
  rw [hlabels]
  exact bind_alike (congrFun Except.map_id _).symm fun _ => rfl

theorem instances_shown (d : Document) :
    instances d.shown = (instances d).map (Keyed.map Instance.shown) :=
  Keyed.traverse_alike (host_shown (disks d)) d.instances

theorem place_shown (containers : Keyed Container) (is : Keyed Instance) (key : String) (j : Decl.Job) :
    place containers (is.map Instance.shown) key j.shown = (place containers is key j).map Job.shown := by
  have hcontainer : j.shown.container = j.container := rfl
  have hlabels : j.shown.instanceLabels.parse = j.instanceLabels.parse := j.instanceLabels.parse_shown
  have hempty : (is.map Instance.shown).isEmpty = is.isEmpty := List.isEmpty_map
  have hhosts : (is.map Instance.shown).values.filter (fun i => j.instanceLabels.parse.satisfies i.labelSet) =
      (is.values.filter fun i => j.instanceLabels.parse.satisfies i.labelSet).map Instance.shown := by
    rw [Keyed.values_map, List.filter_map]
    rfl
  unfold place
  rw [hcontainer, hlabels, hempty]
  cases containers.get? j.container with
  | none => rfl
  | some template =>
    simp only [hhosts]
    generalize is.values.filter (fun i => j.instanceLabels.parse.satisfies i.labelSet) = hosts
    split
    · rfl
    · cases hosts with
      | nil => rfl
      | cons i hosts => simp [Except.map, Job.shown, Instance.shown]

theorem expose_shown (js : Keyed Job) (s : Service) (key : String) (ports : PortList) :
    expose (js.map Job.shown) s.shown key ports = (expose js s key ports).map Service.shown := by
  unfold expose
  rw [Keyed.get?_map]
  cases js.get? key with
  | none => rfl
  | some job =>
    cases ports.parse with
    | error e => rfl
    | ok ps => simp [Except.map, Service.shown]

theorem service_shown (js : Keyed Job) (key : String) (elements : Decl.Service) :
    service (js.map Job.shown) key elements = (service js key elements).map Service.shown :=
  foldlM_alike (k := Service.shown) (fun s (e : String × PortList) => expose_shown js s e.1 e.2) _ { name := key }

theorem deploys_shown (ss : Keyed Service) (keys : List String) :
    deploys (ss.map Service.shown) keys = (deploys ss keys).map (List.map Service.shown) := by
  refine mapM_alike (fun key => ?_) keys
  rw [Keyed.get?_map]
  cases ss.get? key <;> rfl

end Resolve

/-- A document resolves to the same, or fails the same, when such labels are left out. -/
theorem Graph.resolve_shown (d : Document) : Graph.resolve d.shown = (Graph.resolve d).map Graph.shown := by
  unfold Graph.resolve
  refine bind_alike (Resolve.instances_shown d) fun is => ?_
  refine bind_alike (Keyed.traverse_alike (Resolve.place_shown (Resolve.containers d) is) d.jobs) fun js => ?_
  have hservices : d.services.traverse (Resolve.service (js.map Job.shown)) =
      (d.services.traverse (Resolve.service js)).map (Keyed.map Service.shown) := by
    have h := Keyed.traverse_alike (g := id) (Resolve.service_shown js) d.services
    rwa [Keyed.map_id] at h
  refine bind_alike hservices fun ss => ?_
  exact bind_alike (Resolve.deploys_shown ss d.deploys) fun _ => rfl

/-! ### Plans -/

theorem Job.description_shown (j : Job) : j.shown.task.description = j.task.description := by
  have hnames : j.shown.instances.map (fun i => i.name) = j.instances.map fun i => i.name := List.map_map ..
  rw [Job.task, Job.task, hnames]
  rfl

theorem Service.description_shown (s : Service) : s.shown.deployTask.description = s.deployTask.description := by
  have hlength : s.shown.jobs.length = s.jobs.length := List.length_map ..
  rw [Service.deployTask, Service.deployTask, Service.summary, Service.summary, hlength]
  rfl

theorem Tier.descriptions_shown (t : Tier) (g : Graph) :
    (t.tasks g.shown).map Task.description = (t.tasks g).map Task.description := by
  cases t with
  | deploys => simp [tasks, Graph.shown, Function.comp_def, Service.description_shown]
  | jobs => simp [tasks, Graph.shown, Keyed.values_map, Function.comp_def, Job.description_shown]
  | instances => simp [tasks, Graph.shown, Keyed.values_map, Function.comp_def, Instance.task, Instance.shown]
  | _ => rfl

theorem Plan.tier_shown (g : Graph) : (Plan.ofGraph g.shown).tier = (Plan.ofGraph g).tier := by
  have hempty : ∀ t : Tier, (t.tasks g.shown).isEmpty = (t.tasks g).isEmpty := by
    intro t
    simpa using congrArg List.isEmpty (t.descriptions_shown g)
  simp only [Plan.ofGraph, hempty]

theorem Plan.descriptions_shown (g : Graph) :
    (Plan.ofGraph g.shown).tasks.map Task.description = (Plan.ofGraph g).tasks.map Task.description := by
  change ((Plan.ofGraph g.shown).tier.tasks g.shown).map Task.description = _
  rw [Plan.tier_shown, Tier.descriptions_shown]
  rfl

/-! ### The rendered text -/

def Document.detached (d : Document) : Document := { d with imports := [] }

/-- A document that imports nothing is loaded from its text without a look at any file. -/
theorem World.loadTextTraced_of_no_imports {text : String} {d : Document} (h : Document.ofYaml text = .ok d)
    (hi : d.imports = []) (w : World) (base : String) : w.loadTextTraced text base = ⟨.ok d, []⟩ := by
  simp only [World.loadTextTraced, h, hi]
  rfl

namespace Cli

theorem value_run_render {w : World} {stdin : Option String} {file : String} {d : Document}
    (h : (load w stdin file).value = .ok d) :
    ((Command.render file).run w stdin).value = .ok d.detached.toYaml := by
  simp only [Command.run, onDocument, h]
  rfl

theorem value_load_stdin {w : World} {text : String} {d : Document} (h : w.loadTextTraced text "." = ⟨.ok d, []⟩) :
    (load w (some text) "-").value = .ok d := by
  have hstdin : isStdin "-" := by decide +kernel
  rw [load, if_pos hstdin]
  simp only [h]
  rfl

/-- Rendering a document that loads prints a text, and where the text is parsed to what was written it means what the
document means. From any directory, whatever the files, it is loaded without imports, without overrides and without
a look at a file. It has the variables of the document, and it resolves with the same error or to the same graph, up
to the spelling of labels that denote none; the plan has the same tier and says the same. Rendered once more it is
printed as it is. -/
theorem render_keeps_meaning {w : World} {stdin : Option String} {file : String} {d : Document}
    (hload : (load w stdin file).value = .ok d) :
    ∃ r, ((Command.render file).run w stdin).value = .ok r ∧
      (Yaml.ReadsBack (.ofData d.detached.encode) → ∃ d',
        (∀ (w' : World) (base : String), w'.loadTextTraced r base = ⟨.ok d', []⟩) ∧
        d'.imports = [] ∧ d'.overrides = [] ∧ d'.vars = d.vars ∧
        Graph.resolve d' = (Graph.resolve d).map Graph.shown ∧
        (∀ g, Graph.resolve d = .ok g →
          (Plan.ofGraph g.shown).tier = (Plan.ofGraph g).tier ∧
          (Plan.ofGraph g.shown).size = (Plan.ofGraph g).size ∧
          (Plan.ofGraph g.shown).tasks.map Task.description = (Plan.ofGraph g).tasks.map Task.description) ∧
        ∀ w' : World, ((Command.render "-").run w' (some r)).value = .ok r) := by
  refine ⟨d.detached.toYaml, value_run_render hload, fun hback => ?_⟩
  have hread : Document.ofYaml d.detached.toYaml = .ok d.detached.shown :=
    (Document.ofYaml_write hback).trans (Document.restores d.detached)
  have hloads := World.loadTextTraced_of_no_imports hread rfl
  refine ⟨d.detached.shown, hloads, rfl, rfl, rfl, Graph.resolve_shown d.detached, fun g _ => ?_, fun w' => ?_⟩
  · refine ⟨Plan.tier_shown g, ?_, Plan.descriptions_shown g⟩
    simpa [Plan.size] using congrArg List.length (Plan.descriptions_shown g)
  · rw [value_run_render (value_load_stdin (hloads w' "."))]
    change Except.ok (d.detached.shown.toYaml) = Except.ok d.detached.toYaml
    rw [Document.toYaml, Document.encode_shown, Document.toYaml]

/-- `/a` takes its container from `/b`. The instance and the job have labels that come to nothing, each in a spelling
of its own. -/
def depot : World where
  files := ⟨[(⟨["a"]⟩, .file (some ("imports: [b]\ninstances: \x7bv: \x7blabels: ' , '\x7d\x7d\n"
      ++ "jobs: \x7bj: \x7bcontainer: c, instance_labels: ''\x7d\x7d"))),
    (⟨["b"]⟩, .file (some "containers: \x7bc: \x7b\x7d\x7d"))]⟩

theorem render_keeps_meaning_depot :
    ∃ d, (load depot none "/a").value = .ok d ∧ Yaml.ReadsBack (.ofData d.detached.encode) ∧
      ∃ r, ((Command.render "/a").run depot none).value = .ok r ∧
        r = "containers:\n  c: \x7b\x7d\ninstances:\n  v: \x7b\x7d\njobs:\n  j:\n    container: c\n" ∧
      ∃ d' g, (∀ (w' : World) (base : String), w'.loadTextTraced r base = ⟨.ok d', []⟩) ∧
        Graph.resolve d = .ok g ∧ Graph.resolve d' = .ok g.shown ∧ g.shown ≠ g ∧
        (Plan.ofGraph g.shown).tasks.map Task.description = ["job j on [v]"] ∧
        ((Command.render "-").run depot (some r)).value = .ok r := by
  have h : ((load depot none "/a").value.toOption.map fun d => (decide (Yaml.ReadsBack (.ofData d.detached.encode)),
      d.detached.toYaml, (Graph.resolve d).toOption.map fun g => (decide (g.shown = g),
        (Plan.ofGraph g).tasks.map Task.description))) =
      some (true, "containers:\n  c: \x7b\x7d\ninstances:\n  v: \x7b\x7d\njobs:\n  j:\n    container: c\n",
        some (false, ["job j on [v]"])) := by decide +kernel
  obtain ⟨d, hd, hx⟩ := exists_of_map_toOption h
  simp only [Prod.mk.injEq, decide_eq_true_eq] at hx
  obtain ⟨hback, htext, hg⟩ := hx
  obtain ⟨g, hg, hshown⟩ := exists_of_map_toOption hg
  simp only [Prod.mk.injEq, decide_eq_false_iff_not] at hshown
  obtain ⟨r, hr, hmeans⟩ := render_keeps_meaning hd
  obtain ⟨d', hloads, -, -, -, hresolve, hplan, hagain⟩ := hmeans hback
  have hrtext : r = d.detached.toYaml := Except.ok.inj (hr.symm.trans (value_run_render hd))
  refine ⟨d, hd, hback, r, hr, hrtext.trans htext, d', g, hloads, hg, ?_, hshown.1, ?_, hagain depot⟩
  · rw [hresolve, hg]
    rfl
  · rw [(hplan g hg).2.2, hshown.2]

end Cli

end Rollout
