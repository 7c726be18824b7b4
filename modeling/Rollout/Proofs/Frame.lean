import Rollout.Proofs.Evaluation
import Rollout.Proofs.Keyed
import Mathlib.Algebra.Order.Ring.Nat

/-! Binding writes the templated fields and nothing else. What an entity keeps when it is bound is its frame: names,
keys, labels, ports, which fields are present, and the length and order of every list. Two entities of one frame with
the same fields are equal, so frame and fields together are all there is to an entity. -/

namespace Rollout

/-! ### The frame of each kind of entity -/

structure Disk.Frame (d e : Disk) : Prop where
  name : e.name = d.name
  sizeGb : e.sizeGb = d.sizeGb
  present : [e.cloud, e.diskType].map Option.isSome = [d.cloud, d.diskType].map Option.isSome

structure Volume.Frame (v w : Volume) : Prop where
  label : w.label = v.label
  disk : w.disk = v.disk
  host : w.host = v.host
  resolved : v.resolved.Frame w.resolved

structure Instance.Frame (i j : Instance) : Prop where
  name : j.name = i.name
  labels : j.labels = i.labels
  labelSet : j.labelSet = i.labelSet
  volumes : j.volumes = i.volumes
  present : [j.cloud, j.project, j.zone, j.machineType, j.image].map Option.isSome =
    [i.cloud, i.project, i.zone, i.machineType, i.image].map Option.isSome
  mounts : List.Forall₂ Volume.Frame i.mounts j.mounts

structure Artifact.Frame (a b : Artifact) : Prop where
  name : b.name = a.name
  present : [b.project, b.repository, b.build, b.tag].map Option.isSome =
    [a.project, a.repository, a.build, a.tag].map Option.isSome

structure Image.Frame (i j : Image) : Prop where
  name : j.name = i.name
  artifacts : j.artifacts = i.artifacts
  present : [j.dockerfile, j.repository, j.tag].map Option.isSome =
    [i.dockerfile, i.repository, i.tag].map Option.isSome
  resolvedArtifacts : List.Forall₂ Artifact.Frame i.resolvedArtifacts j.resolvedArtifacts

structure Container.Frame (c d : Container) : Prop where
  name : d.name = c.name
  targetInstance : d.targetInstance = c.targetInstance
  present : [d.image, d.command].map Option.isSome = [c.image, c.command].map Option.isSome
  ssh : d.ssh.length = c.ssh.length
  environment : d.environment.length = c.environment.length
  targetImage : Option.Rel Image.Frame c.targetImage d.targetImage

structure Job.Frame (j k : Job) : Prop where
  name : k.name = j.name
  container : k.container = j.container
  instanceLabels : k.instanceLabels = j.instanceLabels
  requiredLabels : k.requiredLabels = j.requiredLabels
  template : Option.Rel Container.Frame j.template k.template
  instances : List.Forall₂ Instance.Frame j.instances k.instances
  copies : List.Forall₂ Container.Frame j.copies k.copies

structure Service.Frame (s t : Service) : Prop where
  name : t.name = s.name
  ports : t.ports = s.ports
  jobs : List.Forall₂ Job.Frame s.jobs t.jobs

inductive Target.Frame : Target → Target → Prop
  | disk {d e : Disk} (h : d.Frame e) : Target.Frame (.disk d) (.disk e)
  | instance {i j : Instance} (h : i.Frame j) : Target.Frame (.instance i) (.instance j)
  | artifact {a b : Artifact} (h : a.Frame b) : Target.Frame (.artifact a) (.artifact b)
  | image {i j : Image} (h : i.Frame j) : Target.Frame (.image i) (.image j)
  | container {c d : Container} (h : c.Frame d) : Target.Frame (.container c) (.container d)
  | job {j k : Job} (h : j.Frame k) : Target.Frame (.job j) (.job k)
  | service {s t : Service} (h : s.Frame t) : Target.Frame (.service s) (.service t)
  | deploy {s t : Service} (h : s.Frame t) : Target.Frame (.deploy s) (.deploy t)

/-- The same keys, with values that `R` holds of in their order. -/
structure Keyed.Frame {α : Type} (R : α → α → Prop) (m n : Keyed α) : Prop where
  keys : n.keys = m.keys
  values : List.Forall₂ R m.values n.values

structure Graph.Frame (g h : Graph) : Prop where
  disks : Keyed.Frame Disk.Frame g.disks h.disks
  instances : Keyed.Frame Instance.Frame g.instances h.instances
  artifacts : Keyed.Frame Artifact.Frame g.artifacts h.artifacts
  images : Keyed.Frame Image.Frame g.images h.images
  containers : Keyed.Frame Container.Frame g.containers h.containers
  jobs : Keyed.Frame Job.Frame g.jobs h.jobs
  services : Keyed.Frame Service.Frame g.services h.services
  deploys : List.Forall₂ Service.Frame g.deploys h.deploys

/-- What binding keeps of an entity. -/
class Framed (α : Type) where
  Frame : α → α → Prop

instance : Framed Disk := ⟨Disk.Frame⟩
instance : Framed Volume := ⟨Volume.Frame⟩
instance : Framed Instance := ⟨Instance.Frame⟩
instance : Framed Artifact := ⟨Artifact.Frame⟩
instance : Framed Image := ⟨Image.Frame⟩
instance : Framed Container := ⟨Container.Frame⟩
instance : Framed Job := ⟨Job.Frame⟩
instance : Framed Service := ⟨Service.Frame⟩
instance : Framed Target := ⟨Target.Frame⟩
instance : Framed Graph := ⟨Graph.Frame⟩

/-- Rewriting fields stays in the frame, and an entity is determined by its frame and its fields. -/
class LawfulFramed (α : Type) [Templated α] [Framed α] : Prop extends LawfulTemplated α where
  frame_mapFields (f : String → String) (a : α) : Framed.Frame a (mapFields f a)
  /-- The frame also tells where the fields of the entity end. -/
  fields_append_inj {a b b' : α} {xs ys : List String} (h : Framed.Frame a b) (h' : Framed.Frame a b')
    (heq : fields b ++ xs = fields b' ++ ys) : b = b' ∧ xs = ys

export LawfulFramed (frame_mapFields fields_append_inj)

section Parts

variable {α : Type} [Templated α] [Framed α] [LawfulFramed α] {xs ys : List String}

theorem present_append_inj {os os' : List (Option String)} (h : os.map Option.isSome = os'.map Option.isSome)
    (heq : os.filterMap id ++ xs = os'.filterMap id ++ ys) : os = os' ∧ xs = ys := by
  induction os generalizing os' with
  | nil =>
    obtain rfl : os' = [] := by simpa using h.symm
    exact ⟨rfl, by simpa using heq⟩
  | cons o os ih =>
    obtain ⟨o', os', rfl⟩ : ∃ o' l, os' = o' :: l := by
      cases os' with
      | nil => simp at h
      | cons o' l => exact ⟨o', l, rfl⟩
    simp only [List.map_cons, List.cons.injEq] at h
    cases o with
    | none =>
      obtain rfl : o' = none := by simpa using h.1.symm
      obtain ⟨rfl, hxs⟩ := ih h.2 (by simpa using heq)
      exact ⟨rfl, hxs⟩
    | some s =>
      obtain ⟨s', rfl⟩ := Option.isSome_iff_exists.1 h.1.symm
      simp only [List.filterMap_cons, id, List.cons_append, List.cons.injEq] at heq
      obtain ⟨rfl, hxs⟩ := ih h.2 heq.2
      exact ⟨by rw [heq.1], hxs⟩

theorem isSome_map_map (f : String → String) (os : List (Option String)) :
    (os.map (Option.map f)).map Option.isSome = os.map Option.isSome := by
  simp

theorem forall₂_mapFields (f : String → String) (as : List α) :
    List.Forall₂ Framed.Frame as (as.map (mapFields f)) := by
  induction as with
  | nil => exact .nil
  | cons a as ih => exact .cons (frame_mapFields f a) ih

theorem flatMap_append_inj {as bs bs' : List α} (h : List.Forall₂ Framed.Frame as bs)
    (h' : List.Forall₂ Framed.Frame as bs') (heq : bs.flatMap fields ++ xs = bs'.flatMap fields ++ ys) :
    bs = bs' ∧ xs = ys := by
  induction h generalizing bs' with
  | nil =>
    cases h'
    exact ⟨rfl, by simpa using heq⟩
  | cons hb h ih =>
    cases h' with
    | cons hb' h' =>
      rw [List.flatMap_cons, List.flatMap_cons, List.append_assoc, List.append_assoc] at heq
      obtain ⟨rfl, hrest⟩ := fields_append_inj hb hb' heq
      obtain ⟨rfl, hxs⟩ := ih h' hrest
      exact ⟨rfl, hxs⟩

theorem rel_mapFields (f : String → String) (o : Option α) : Option.Rel Framed.Frame o (o.map (mapFields f)) := by
  cases o with
  | none => exact .none
  | some a => exact .some (frame_mapFields f a)

theorem getD_append_inj {o p p' : Option α} (h : Option.Rel Framed.Frame o p) (h' : Option.Rel Framed.Frame o p')
    (heq : (p.map fields).getD [] ++ xs = (p'.map fields).getD [] ++ ys) : p = p' ∧ xs = ys := by
  cases h with
  | none =>
    cases h'
    exact ⟨rfl, heq⟩
  | some hb =>
    cases h' with
    | some hb' =>
      obtain ⟨rfl, hxs⟩ := fields_append_inj hb hb' heq
      exact ⟨rfl, hxs⟩

theorem Keyed.Frame.of_map (f : String → String) (m : Keyed α) : Keyed.Frame Framed.Frame m (m.map (mapFields f)) where
  keys := keys_map _ m
  values := by
    rw [values_map]
    exact forall₂_mapFields f m.values

theorem Keyed.values_append_inj {m n n' : Keyed α} (h : Keyed.Frame Framed.Frame m n)
    (h' : Keyed.Frame Framed.Frame m n')
    (heq : n.values.flatMap fields ++ xs = n'.values.flatMap fields ++ ys) : n = n' ∧ xs = ys := by
  obtain ⟨hvalues, hxs⟩ := flatMap_append_inj h.values h'.values heq
  exact ⟨ext_values (h.keys.trans h'.keys.symm) hvalues, hxs⟩

end Parts

/-! ### Frame and fields make up an entity -/

section Entities

variable {xs : List String}

attribute [ext] Disk Volume Instance Artifact Image Container Job Service Graph

instance : LawfulFramed Disk where
  frame_mapFields f d := ⟨rfl, rfl, isSome_map_map f [d.cloud, d.diskType]⟩
  fields_append_inj h h' heq := by
    obtain ⟨hfields, hxs⟩ := present_append_inj (h.present.trans h'.present.symm) heq
    simp only [List.cons.injEq, and_true] at hfields
    exact ⟨Disk.ext hfields.1 hfields.2 (h.sizeGb.trans h'.sizeGb.symm) (h.name.trans h'.name.symm), hxs⟩

instance : LawfulFramed Volume where
  frame_mapFields f v := ⟨rfl, rfl, rfl, frame_mapFields f v.resolved⟩
  fields_append_inj h h' heq := by
    obtain ⟨hpoint, heq⟩ := List.cons.inj heq
    obtain ⟨hdisk, hxs⟩ := fields_append_inj h.resolved h'.resolved heq
    exact ⟨Volume.ext (h.label.trans h'.label.symm) (h.disk.trans h'.disk.symm) hpoint
      (h.host.trans h'.host.symm) hdisk, hxs⟩

theorem Instance.fields_append (i : Instance) : fields i ++ xs =
    [i.cloud, i.project, i.zone, i.machineType, i.image].filterMap id ++ (i.mounts.flatMap fields ++ xs) :=
  List.append_assoc ..

instance : LawfulFramed Instance where
  frame_mapFields f i := ⟨rfl, rfl, rfl, rfl, isSome_map_map f [i.cloud, i.project, i.zone, i.machineType, i.image],
    forall₂_mapFields f i.mounts⟩
  fields_append_inj h h' heq := by
    rw [Instance.fields_append, Instance.fields_append] at heq
    obtain ⟨hfields, heq⟩ := present_append_inj (h.present.trans h'.present.symm) heq
    obtain ⟨hmounts, hxs⟩ := flatMap_append_inj h.mounts h'.mounts heq
    simp only [List.cons.injEq, and_true] at hfields
    obtain ⟨hcloud, hproject, hzone, htype, himage⟩ := hfields
    exact ⟨Instance.ext hcloud hproject hzone htype himage (h.labels.trans h'.labels.symm)
      (h.volumes.trans h'.volumes.symm) (h.name.trans h'.name.symm) (h.labelSet.trans h'.labelSet.symm) hmounts, hxs⟩

instance : LawfulFramed Artifact where
  frame_mapFields f a := ⟨rfl, isSome_map_map f [a.project, a.repository, a.build, a.tag]⟩
  fields_append_inj h h' heq := by
    obtain ⟨hfields, hxs⟩ := present_append_inj (h.present.trans h'.present.symm) heq
    simp only [List.cons.injEq, and_true] at hfields
    obtain ⟨hproject, hrepository, hbuild, htag⟩ := hfields
    exact ⟨Artifact.ext hproject hrepository hbuild htag (h.name.trans h'.name.symm), hxs⟩

theorem Image.fields_append (i : Image) : fields i ++ xs =
    [i.dockerfile, i.repository, i.tag].filterMap id ++ (i.resolvedArtifacts.flatMap fields ++ xs) :=
  List.append_assoc ..

instance : LawfulFramed Image where
  frame_mapFields f i := ⟨rfl, rfl, isSome_map_map f [i.dockerfile, i.repository, i.tag],
    forall₂_mapFields f i.resolvedArtifacts⟩
  fields_append_inj h h' heq := by
    rw [Image.fields_append, Image.fields_append] at heq
    obtain ⟨hfields, heq⟩ := present_append_inj (h.present.trans h'.present.symm) heq
    obtain ⟨hartifacts, hxs⟩ := flatMap_append_inj h.resolvedArtifacts h'.resolvedArtifacts heq
    simp only [List.cons.injEq, and_true] at hfields
    obtain ⟨hdockerfile, hrepository, htag⟩ := hfields
    exact ⟨Image.ext hdockerfile hrepository htag (h.artifacts.trans h'.artifacts.symm) (h.name.trans h'.name.symm)
      hartifacts, hxs⟩

theorem Container.fields_append (c : Container) : fields c ++ xs =
    [c.image, c.command].filterMap id ++ (c.ssh ++ (c.environment ++ ((c.targetImage.map fields).getD [] ++ xs))) := by
  simp only [← List.append_assoc]
  rfl

instance : LawfulFramed Container where
  frame_mapFields f c := ⟨rfl, rfl, isSome_map_map f [c.image, c.command], List.length_map f, List.length_map f,
    rel_mapFields f c.targetImage⟩
  fields_append_inj h h' heq := by
    rw [Container.fields_append, Container.fields_append] at heq
    obtain ⟨hfields, heq⟩ := present_append_inj (h.present.trans h'.present.symm) heq
    obtain ⟨hssh, heq⟩ := List.append_inj heq (h.ssh.trans h'.ssh.symm)
    obtain ⟨henvironment, heq⟩ := List.append_inj heq (h.environment.trans h'.environment.symm)
    obtain ⟨himage, hxs⟩ := getD_append_inj h.targetImage h'.targetImage heq
    simp only [List.cons.injEq, and_true] at hfields
    exact ⟨Container.ext hfields.1 hfields.2 hssh henvironment (h.name.trans h'.name.symm) himage
      (h.targetInstance.trans h'.targetInstance.symm), hxs⟩

theorem Job.fields_append (j : Job) : fields j ++ xs =
    (j.template.map fields).getD [] ++ (j.instances.flatMap fields ++ (j.copies.flatMap fields ++ xs)) := by
  simp only [← List.append_assoc]
  rfl

instance : LawfulFramed Job where
  frame_mapFields f j := ⟨rfl, rfl, rfl, rfl, rel_mapFields f j.template, forall₂_mapFields f j.instances,
    forall₂_mapFields f j.copies⟩
  fields_append_inj h h' heq := by
    rw [Job.fields_append, Job.fields_append] at heq
    obtain ⟨htemplate, heq⟩ := getD_append_inj h.template h'.template heq
    obtain ⟨hinstances, heq⟩ := flatMap_append_inj h.instances h'.instances heq
    obtain ⟨hcopies, hxs⟩ := flatMap_append_inj h.copies h'.copies heq
    exact ⟨Job.ext (h.container.trans h'.container.symm) (h.instanceLabels.trans h'.instanceLabels.symm)
      (h.name.trans h'.name.symm) (h.requiredLabels.trans h'.requiredLabels.symm) htemplate hinstances hcopies, hxs⟩

instance : LawfulFramed Service where
  frame_mapFields f s := ⟨rfl, rfl, forall₂_mapFields f s.jobs⟩
  fields_append_inj h h' heq := by
    obtain ⟨hjobs, hxs⟩ := flatMap_append_inj h.jobs h'.jobs heq
    exact ⟨Service.ext (h.name.trans h'.name.symm) hjobs (h.ports.trans h'.ports.symm), hxs⟩

theorem Target.append_inj_of {α : Type} [Templated α] [Framed α] [LawfulFramed α] {a b b' : α} {xs ys : List String}
    (target : α → Target) (hfields : ∀ a, fields (target a) = fields a) (h : Framed.Frame a b)
    (h' : Framed.Frame a b') (heq : fields (target b) ++ xs = fields (target b') ++ ys) :
    target b = target b' ∧ xs = ys := by
  rw [hfields, hfields] at heq
  obtain ⟨rfl, hxs⟩ := fields_append_inj h h' heq
  exact ⟨rfl, hxs⟩

instance : LawfulFramed Target where
  frame_mapFields f t := by
    cases t with
    | disk e => exact .disk (frame_mapFields f e)
    | «instance» e => exact .instance (frame_mapFields f e)
    | artifact e => exact .artifact (frame_mapFields f e)
    | image e => exact .image (frame_mapFields f e)
    | container e => exact .container (frame_mapFields f e)
    | job e => exact .job (frame_mapFields f e)
    | service e => exact .service (frame_mapFields f e)
    | deploy e => exact .deploy (frame_mapFields f e)
  fields_append_inj h h' heq := by
    cases h with
    | disk h => cases h' with
      | disk h' => exact Target.append_inj_of .disk (fun _ => rfl) h h' heq
    | «instance» h => cases h' with
      | «instance» h' => exact Target.append_inj_of .instance (fun _ => rfl) h h' heq
    | artifact h => cases h' with
      | artifact h' => exact Target.append_inj_of .artifact (fun _ => rfl) h h' heq
    | image h => cases h' with
      | image h' => exact Target.append_inj_of .image (fun _ => rfl) h h' heq
    | container h => cases h' with
      | container h' => exact Target.append_inj_of .container (fun _ => rfl) h h' heq
    | job h => cases h' with
      | job h' => exact Target.append_inj_of .job (fun _ => rfl) h h' heq
    | service h => cases h' with
      | service h' => exact Target.append_inj_of .service (fun _ => rfl) h h' heq
    | deploy h => cases h' with
      | deploy h' => exact Target.append_inj_of .deploy (fun _ => rfl) h h' heq

theorem Graph.fields_append (g : Graph) : fields g ++ xs =
    g.disks.values.flatMap fields ++ (g.instances.values.flatMap fields ++ (g.artifacts.values.flatMap fields ++
      (g.images.values.flatMap fields ++ (g.containers.values.flatMap fields ++ (g.jobs.values.flatMap fields ++
        (g.services.values.flatMap fields ++ (g.deploys.flatMap fields ++ xs))))))) := by
  simp only [← List.append_assoc]
  rfl

instance : LawfulFramed Graph where
  frame_mapFields f g := ⟨.of_map f g.disks, .of_map f g.instances, .of_map f g.artifacts,
    .of_map f g.images, .of_map f g.containers, .of_map f g.jobs, .of_map f g.services,
    forall₂_mapFields f g.deploys⟩
  fields_append_inj h h' heq := by
    rw [Graph.fields_append, Graph.fields_append] at heq
    obtain ⟨hdisks, heq⟩ := Keyed.values_append_inj h.disks h'.disks heq
    obtain ⟨hinstances, heq⟩ := Keyed.values_append_inj h.instances h'.instances heq
    obtain ⟨hartifacts, heq⟩ := Keyed.values_append_inj h.artifacts h'.artifacts heq
    obtain ⟨himages, heq⟩ := Keyed.values_append_inj h.images h'.images heq
    obtain ⟨hcontainers, heq⟩ := Keyed.values_append_inj h.containers h'.containers heq
    obtain ⟨hjobs, heq⟩ := Keyed.values_append_inj h.jobs h'.jobs heq
    obtain ⟨hservices, heq⟩ := Keyed.values_append_inj h.services h'.services heq
    obtain ⟨hdeploys, hxs⟩ := flatMap_append_inj h.deploys h'.deploys heq
    exact ⟨Graph.ext hdisks hinstances hartifacts himages hcontainers hjobs hservices hdeploys, hxs⟩

end Entities

/-! ### Binding -/

section Binding

variable {α : Type} [Templated α] [Framed α]

theorem countP_range_map (f : String → String) (l : List String) :
    (List.range l.length).countP (fun i => (l.map f)[i]? ≠ l[i]?) = l.countP fun s => f s ≠ s := by
  induction l with
  | nil => rfl
  | cons s l ih =>
    rw [List.length_cons, List.range_succ_eq_map, List.countP_cons, List.countP_map, List.countP_cons, ← ih]
    simp [Function.comp_def]

/-- One pass over fields: each is evaluated, and those that change are written and counted. -/
def Context.rewrite (c : Context) (env : Environment) : List String → List String × Nat
  | [] => ([], 0)
  | s :: l =>
    let (l', n) := c.rewrite env l
    if c.eval env s = s then (s :: l', n) else (c.eval env s :: l', n + 1)

/-- Writing and counting agree: what is bound and how much of it changed come out of one pass over the fields. -/
theorem Context.rewrite_fields [LawfulFramed α] (c : Context) (env : Environment) (a : α) :
    c.rewrite env (fields a) = (fields (c.bind env a), c.bindCount env a) := by
  have hpass : ∀ l, c.rewrite env l = (l.map (c.eval env), l.countP fun s => c.eval env s ≠ s) := by
    intro l
    induction l with
    | nil => rfl
    | cons s l ih =>
      by_cases hs : c.eval env s = s <;> simp [rewrite, ih, hs]
  rw [hpass, bind, fields_mapFields]
  rfl

/-- Binding evaluates each templated field in its place, counts those that change, and changes nothing else. -/
structure Context.Rewrites (c : Context) (env : Environment) (a : α) : Prop where
  fields : fields (c.bind env a) = (fields a).map (c.eval env)
  count : c.bindCount env a =
    (List.range (Templated.fields a).length).countP fun i =>
      (Templated.fields (c.bind env a))[i]? ≠ (Templated.fields a)[i]?
  frame : Framed.Frame a (c.bind env a)
  /-- Nothing but what binding gives has that frame and those fields. -/
  unique : ∀ b, Framed.Frame a b → Templated.fields b = (Templated.fields a).map (c.eval env) → b = c.bind env a

theorem Context.rewrites [LawfulFramed α] (c : Context) (env : Environment) (a : α) : c.Rewrites env a where
  fields := fields_mapFields (c.eval env) a
  count := by
    rw [bind, fields_mapFields, countP_range_map]
    rfl
  frame := frame_mapFields (c.eval env) a
  unique := by
    intro b hframe hfields
    have heq : Templated.fields b ++ [] = Templated.fields (c.bind env a) ++ [] := by
      rw [hfields, bind, fields_mapFields]
    exact (fields_append_inj hframe (frame_mapFields (c.eval env) a) heq).1

theorem bindCount_graph (c : Context) (env : Environment) (g : Graph) : c.bindCount env g =
    (g.disks.values.map (c.bindCount env)).sum + (g.instances.values.map (c.bindCount env)).sum +
      (g.artifacts.values.map (c.bindCount env)).sum + (g.images.values.map (c.bindCount env)).sum +
      (g.containers.values.map (c.bindCount env)).sum + (g.jobs.values.map (c.bindCount env)).sum +
      (g.services.values.map (c.bindCount env)).sum + (g.deploys.map (c.bindCount env)).sum := by
  have hsum : ∀ {α : Type} [Templated α] (as : List α),
      (as.flatMap fields).countP (fun f => c.eval env f ≠ f) = (as.map (c.bindCount env)).sum := fun as => by
    rw [List.countP_flatMap]
    rfl
  simp only [← hsum, ← List.countP_append]
  rfl

/-- Binding rewrites exactly the templated fields, of every kind of entity and of a whole graph; for a graph the
changes of its collections add up. -/
theorem Context.bind_rewrites_fields (c : Context) (env : Environment) :
    (∀ d : Disk, c.Rewrites env d) ∧ (∀ v : Volume, c.Rewrites env v) ∧ (∀ i : Instance, c.Rewrites env i) ∧
      (∀ a : Artifact, c.Rewrites env a) ∧ (∀ i : Image, c.Rewrites env i) ∧ (∀ k : Container, c.Rewrites env k) ∧
      (∀ j : Job, c.Rewrites env j) ∧ (∀ s : Service, c.Rewrites env s) ∧ (∀ t : Target, c.Rewrites env t) ∧
      ∀ g : Graph, c.Rewrites env g ∧ c.bindCount env g =
        (g.disks.values.map (c.bindCount env)).sum + (g.instances.values.map (c.bindCount env)).sum +
          (g.artifacts.values.map (c.bindCount env)).sum + (g.images.values.map (c.bindCount env)).sum +
          (g.containers.values.map (c.bindCount env)).sum + (g.jobs.values.map (c.bindCount env)).sum +
          (g.services.values.map (c.bindCount env)).sum + (g.deploys.map (c.bindCount env)).sum :=
  ⟨c.rewrites env, c.rewrites env, c.rewrites env, c.rewrites env, c.rewrites env, c.rewrites env, c.rewrites env,
    c.rewrites env, c.rewrites env, fun g => ⟨c.rewrites env g, bindCount_graph c env g⟩⟩

end Binding

end Rollout
