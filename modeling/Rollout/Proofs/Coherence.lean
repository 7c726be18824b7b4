import Rollout.Graph.Resolve
import Rollout.Proofs.Fault
import Rollout.Proofs.Keyed

/-! The copies in a graph agree with what they are copies of. Entities are copied into one another when a
document is resolved, and every copy is bound on its own; since binding treats the fields of an entity alike
wherever the entity stands, no copy drifts from its original, however often the graph is bound. -/

namespace Rollout

namespace Keyed

variable {α β γ ε : Type}

/-- The two maps have the same keys, and `R` holds of the values at each. -/
def Related (R : String → α → β → Prop) (decls : Keyed α) (m : Keyed β) : Prop :=
  m.keys = decls.keys ∧ ∀ key b, m.get? key = some b → ∃ a, decls.get? key = some a ∧ R key a b

theorem Related.of_mapWithKey {R : String → α → β → Prop} {f : String → α → β} {m : Keyed α}
    (h : ∀ key a, R key a (f key a)) : Related R m (m.mapWithKey f) := by
  refine ⟨keys_mapWithKey f m, fun key b hb => ?_⟩
  rw [get?_mapWithKey] at hb
  obtain ⟨a, ha, rfl⟩ := Option.map_eq_some_iff.1 hb
  exact ⟨a, ha, h key a⟩

theorem Related.of_traverse {R : String → α → β → Prop} {f : String → α → Except ε β} {m : Keyed α}
    {r : Keyed β} (hr : m.traverse f = .ok r) (h : ∀ key a b, f key a = .ok b → R key a b) :
    Related R m r := by
  refine ⟨keys_of_traverse hr, fun key b hb => ?_⟩
  obtain ⟨a, ha, hf⟩ := (get?_of_traverse hr key b).1 hb
  exact ⟨a, ha, h key a b hf⟩

theorem Related.map {R : String → α → β → Prop} {S : String → α → γ → Prop} {f : β → γ} {decls : Keyed α}
    {m : Keyed β} (hm : Related R decls m) (h : ∀ key a b, R key a b → S key a (f b)) :
    Related S decls (m.map f) := by
  refine ⟨(keys_map f m).trans hm.1, fun key c hc => ?_⟩
  rw [get?_map] at hc
  obtain ⟨b, hb, rfl⟩ := Option.map_eq_some_iff.1 hc
  obtain ⟨a, ha, hR⟩ := hm.2 key b hb
  exact ⟨a, ha, h key a b hR⟩

theorem Related.named {R : String → α → β → Prop} {decls : Keyed α} {m : Keyed β} {name : β → String}
    (hm : Related R decls m) (h : ∀ key a b, R key a b → name b = key) :
    ∀ key b, m.get? key = some b → name b = key := by
  intro key b hb
  obtain ⟨a, -, hR⟩ := hm.2 key b hb
  exact h key a b hR

theorem Related.exists_of_get? {R : String → α → β → Prop} {decls : Keyed α} {m : Keyed β} (h : Related R decls m)
    {key : String} {a : α} (ha : decls.get? key = some a) : ∃ b, m.get? key = some b ∧ R key a b := by
  have hkey : key ∈ m.keys := by
    rw [h.1]
    exact mem_keys.2 ⟨a, ha⟩
  obtain ⟨b, hb⟩ := mem_keys.1 hkey
  obtain ⟨a', ha', hR⟩ := h.2 key b hb
  obtain rfl : a = a' := Option.some.inj (ha.symm.trans ha')
  exact ⟨b, hb, hR⟩

/-- Every element of the list is what its name leads to. -/
def Holds (name : β → String) (m : Keyed β) (l : List β) : Prop :=
  ∀ b ∈ l, m.get? (name b) = some b

theorem Holds.of_get? {name : β → String} {m : Keyed β} {l : List β}
    (hname : ∀ key b, m.get? key = some b → name b = key) (h : ∀ b ∈ l, ∃ key, m.get? key = some b) :
    Holds name m l := by
  intro b hb
  obtain ⟨key, hk⟩ := h b hb
  rw [hname key b hk, hk]

theorem Holds.map {name : β → String} {m : Keyed β} {l : List β} {f : β → β} (h : Holds name m l)
    (hf : ∀ b, name (f b) = name b) : Holds name (m.map f) (l.map f) := by
  intro c hc
  obtain ⟨b, hb, rfl⟩ := List.mem_map.1 hc
  rw [get?_map, hf, h b hb, Option.map_some]

theorem exists_get?_of_map_some {m : Keyed β} {l : List β} {keys : List String}
    (h : l.map some = keys.map m.get?) : ∀ b ∈ l, ∃ key, m.get? key = some b := by
  intro b hb
  have hm : some b ∈ keys.map m.get? := h ▸ List.mem_map_of_mem hb
  obtain ⟨key, -, hk⟩ := List.mem_map.1 hm
  exact ⟨key, hk⟩

theorem map_some_map {m : Keyed β} {l : List β} {keys : List String} (f : β → β)
    (h : l.map some = keys.map m.get?) : (l.map f).map some = keys.map (m.map f).get? := by
  calc (l.map f).map some = (l.map some).map (Option.map f) := by simp
    _ = (keys.map m.get?).map (Option.map f) := by rw [h]
    _ = keys.map (m.map f).get? := by simp [Function.comp_def]

end Keyed

namespace Resolve

/-! ### What each pass gives -/

/-- The pairs of a volume label and a disk that an instance mounts. -/
def pairs (mounts : List Volume) : List (String × String) := mounts.map fun v => (v.label, v.disk)

theorem attach_eq_ok {disks : Keyed Disk} {host label : String} {points : Keyed String} {vs : List Volume}
    (h : attach disks host label points = .ok vs) :
    (∀ v ∈ vs, v.host = host ∧ disks.get? v.disk = some v.resolved) ∧
      pairs vs = points.keys.map (Prod.mk label) := by
  unfold attach at h
  have hall := forall₂_of_mapM h
  unfold Keyed.keys
  generalize points.entries = es at hall
  clear h
  induction hall with
  | nil => exact ⟨by simp, rfl⟩
  | @cons e v es vs hv _ ih =>
    obtain ⟨key, point⟩ := e
    simp only at hv
    split at hv
    · cases hv
    rename_i disk hd
    cases hv
    refine ⟨?_, congrArg (List.cons (label, key)) ih.2⟩
    intro v hm
    rcases List.mem_cons.1 hm with rfl | hm
    · exact ⟨rfl, hd⟩
    · exact ih.1 v hm

theorem attach_labels_eq_ok {disks : Keyed Disk} {host : String} {es : List (String × Keyed String)}
    {vss : List (List Volume)} (h : es.mapM (fun e => attach disks host e.1 e.2) = .ok vss) :
    (∀ v ∈ vss.flatten, v.host = host ∧ disks.get? v.disk = some v.resolved) ∧
      pairs vss.flatten = es.flatMap fun e => e.2.keys.map (Prod.mk e.1) := by
  have hall := forall₂_of_mapM h
  clear h
  induction hall with
  | nil => exact ⟨by simp, rfl⟩
  | @cons e vs es vss hv _ ih =>
    obtain ⟨hvs, hp⟩ := attach_eq_ok hv
    rw [List.flatten_cons, List.flatMap_cons, ← ih.2, ← hp]
    refine ⟨?_, List.map_append ..⟩
    intro v hm
    rcases List.mem_append.1 hm with hm | hm
    · exact hvs v hm
    · exact ih.1 v hm

theorem mem_flatMap_keys {volumes : Keyed (Keyed String)} {label disk : String} :
    ((label, disk) ∈ volumes.entries.flatMap fun e => e.2.keys.map (Prod.mk e.1)) ↔
      ∃ points, volumes.get? label = some points ∧ disk ∈ points.keys := by
  simp only [List.mem_flatMap, List.mem_map, Prod.mk.injEq]
  constructor
  · rintro ⟨⟨_, points⟩, he, _, hdisk, rfl, rfl⟩
    exact ⟨points, Keyed.mem_entries.1 he, hdisk⟩
  · rintro ⟨points, hp, hdisk⟩
    exact ⟨(label, points), Keyed.mem_entries.2 hp, disk, hdisk, rfl, rfl⟩

theorem pairwise_flatMap_keys (volumes : Keyed (Keyed String)) :
    (volumes.entries.flatMap fun e => e.2.keys.map (Prod.mk e.1)).Pairwise
      fun p q => p.1 < q.1 ∨ p.1 = q.1 ∧ p.2 < q.2 := by
  refine List.pairwise_flatMap.2 ⟨fun e _ => ?_, ?_⟩
  · refine List.pairwise_map.2 (e.2.ascending.imp fun hlt => ?_)
    exact Or.inr ⟨rfl, hlt⟩
  · refine (List.pairwise_map.1 volumes.ascending).imp fun hlt p hp q hq => ?_
    obtain ⟨_, -, rfl⟩ := List.mem_map.1 hp
    obtain ⟨_, -, rfl⟩ := List.mem_map.1 hq
    exact Or.inl hlt

theorem host_eq_ok {disks : Keyed Disk} {key : String} {decl : Decl.Instance} {i : Instance}
    (h : host disks key decl = .ok i) :
    i.name = key ∧ i.toInstance = decl ∧ i.labelSet = decl.labels.parse ∧
      (∀ v ∈ i.mounts, v.host = key ∧ disks.get? v.disk = some v.resolved) ∧
      pairs i.mounts = decl.volumes.entries.flatMap fun e => e.2.keys.map (Prod.mk e.1) := by
  obtain ⟨vss, hm, h⟩ := bind_eq_ok.1 h
  cases h
  exact ⟨rfl, rfl, rfl, attach_labels_eq_ok hm⟩

theorem place_eq_ok_iff {containers : Keyed Container} {instances : Keyed Instance} {key : String}
    {decl : Decl.Job} {j : Job} :
    place containers instances key decl = .ok j ↔
      ∃ template hosts, containers.get? decl.container = some template ∧
        hosts = (instances.values.filter fun i => decl.instanceLabels.parse.satisfies i.labelSet) ∧ hosts ≠ [] ∧
        j = { decl with
          name := key
          requiredLabels := decl.instanceLabels.parse
          template := some template
          instances := hosts
          copies := hosts.map fun i => { template with targetInstance := some i.name } } := by
  constructor
  · intro h
    unfold place at h
    split at h
    · cases h
    rename_i template ht
    simp only at h
    split at h
    · cases h
    split at h
    · cases h
    rename_i hne
    split at h
    · cases h
    cases h
    exact ⟨template, _, ht, rfl, hne, rfl⟩
  · rintro ⟨template, hosts, ht, rfl, hne, rfl⟩
    have hinstances : instances.isEmpty ≠ true := by
      intro he
      rw [Keyed.eq_empty_of_isEmpty he] at hne
      exact hne rfl
    -- each host has a copy, so there are copies where there are hosts
    unfold place
    simp only [ht, if_neg hinstances, if_neg hne, List.map_eq_nil_iff]

theorem place_eq_ok {containers : Keyed Container} {instances : Keyed Instance} {key : String}
    {decl : Decl.Job} {j : Job} (h : place containers instances key decl = .ok j) :
    j.name = key ∧ j.toJob = decl ∧
      j.instances = (instances.values.filter fun i => decl.instanceLabels.parse.satisfies i.labelSet) ∧
      j.instances ≠ [] ∧ ∃ template, containers.get? decl.container = some template ∧ j.template = some template ∧
        j.copies = j.instances.map fun i => { template with targetInstance := some i.name } := by
  obtain ⟨template, hosts, ht, hhosts, hne, rfl⟩ := place_eq_ok_iff.1 h
  exact ⟨rfl, rfl, hhosts, hne, template, ht, rfl, rfl⟩

/-- The jobs of a service are those of its elements, one after another. -/
theorem foldlM_expose_eq_ok {jobs : Keyed Job} {es : List (String × PortList)} {s s' : Service}
    (h : es.foldlM (fun s e => expose jobs s e.1 e.2) s = .ok s') :
    s'.name = s.name ∧ s'.jobs.map some = s.jobs.map some ++ es.map fun e => jobs.get? e.1 := by
  induction es generalizing s with
  | nil =>
    cases h
    simp
  | cons e es ih =>
    rw [List.foldlM_cons] at h
    obtain ⟨s₁, h₁, h⟩ := bind_eq_ok.1 h
    obtain ⟨hname, hjobs⟩ := ih h
    unfold expose at h₁
    split at h₁
    · cases h₁
    rename_i job hjob
    split at h₁ <;> cases h₁
    refine ⟨hname, ?_⟩
    rw [hjobs, List.map_cons, hjob]
    simp

theorem service_eq_ok {jobs : Keyed Job} {key : String} {elements : Decl.Service} {s : Service}
    (h : service jobs key elements = .ok s) :
    s.name = key ∧ s.jobs.map some = (elements.flatMap Keyed.keys).map jobs.get? := by
  obtain ⟨hname, hjobs⟩ := foldlM_expose_eq_ok h
  refine ⟨hname, ?_⟩
  rw [hjobs, List.map_flatMap]
  simp [List.map_flatMap, Keyed.keys, Function.comp_def]

theorem deploys_eq_ok {services : Keyed Service} {keys : List String} {ss : List Service}
    (h : deploys services keys = .ok ss) : ss.map some = keys.map services.get? := by
  have hall := forall₂_of_mapM h
  clear h
  induction hall with
  | nil => rfl
  | @cons key s keys ss hs _ ih =>
    split at hs <;> cases hs
    rename_i hg
    rw [List.map_cons, List.map_cons, ih, hg]

end Resolve

/-! ### Coherence of each kind of entity -/

structure Instance.Coherent (disks : Keyed Disk) (key : String) (decl : Decl.Instance) (i : Instance) : Prop where
  name : i.name = key
  volumes : i.volumes = decl.volumes
  mounts : ∀ v ∈ i.mounts, v.host = key ∧ disks.get? v.disk = some v.resolved
  mem_pairs : ∀ label disk, (label, disk) ∈ Resolve.pairs i.mounts ↔
    ∃ points, i.volumes.get? label = some points ∧ disk ∈ points.keys
  ascending : (Resolve.pairs i.mounts).Pairwise fun p q => p.1 < q.1 ∨ p.1 = q.1 ∧ p.2 < q.2

structure Image.Coherent (artifacts : Keyed Artifact) (key : String) (decl : Decl.Image) (i : Image) : Prop where
  name : i.name = key
  declared : i.artifacts = decl.artifacts
  resolved : i.resolvedArtifacts = i.artifacts.filterMap artifacts.get?

structure Container.Coherent (images : Keyed Image) (key : String) (decl : Decl.Container) (c : Container) :
    Prop where
  name : c.name = key
  /-- Binding may rewrite the image that a container names, but not the one that it was given. -/
  target : c.targetImage = decl.image.bind images.get?
  holds : Keyed.Holds Image.name images c.targetImage.toList

structure Job.Coherent (containers : Keyed Container) (instances : Keyed Instance) (key : String)
    (decl : Decl.Job) (j : Job) : Prop where
  name : j.name = key
  container : j.container = decl.container
  template : j.template = containers.get? j.container
  holds : Keyed.Holds Instance.name instances j.instances
  copies : ∃ c, j.template = some c ∧ j.copies = j.instances.map fun i => { c with targetInstance := some i.name }

structure Service.Coherent (jobs : Keyed Job) (key : String) (elements : Decl.Service) (s : Service) :
    Prop where
  name : s.name = key
  listed : s.jobs.map some = (elements.flatMap Keyed.keys).map jobs.get?
  holds : Keyed.Holds Job.name jobs s.jobs

/-- Each collection has the keys that the document declares, and every copy in an entity is the entity that it
is a copy of. -/
structure Graph.Coherent (d : Document) (g : Graph) : Prop where
  disks : Keyed.Related (fun key _ disk => disk.name = key) d.disks g.disks
  instances : Keyed.Related (Instance.Coherent g.disks) d.instances g.instances
  artifacts : Keyed.Related (fun key _ a => a.name = key) d.artifacts g.artifacts
  images : Keyed.Related (Image.Coherent g.artifacts) d.images g.images
  containers : Keyed.Related (Container.Coherent g.images) d.containers g.containers
  jobs : Keyed.Related (Job.Coherent g.containers g.instances) d.jobs g.jobs
  services : Keyed.Related (Service.Coherent g.jobs) d.services g.services
  deploys : g.deploys.map some = d.deploys.map g.services.get?
  holds : Keyed.Holds Service.name g.services g.deploys

/-! ### Resolving gives a coherent graph -/

namespace Resolve

theorem coherent_host {disks : Keyed Disk} {key : String} {decl : Decl.Instance} {i : Instance}
    (h : host disks key decl = .ok i) : i.Coherent disks key decl := by
  obtain ⟨hname, rfl, -, hmounts, hpairs⟩ := host_eq_ok h
  refine ⟨hname, rfl, hmounts, ?_, ?_⟩
  · intro label disk
    rw [hpairs]
    exact mem_flatMap_keys
  · rw [hpairs]
    exact pairwise_flatMap_keys _

theorem coherent_images (d : Document) :
    Keyed.Related (Image.Coherent (artifacts d)) d.images (images d) :=
  .of_mapWithKey fun _ _ => ⟨rfl, rfl, rfl⟩

theorem coherent_containers (d : Document) :
    Keyed.Related (Container.Coherent (images d)) d.containers (containers d) := by
  refine .of_mapWithKey fun key decl => ⟨rfl, rfl, ?_⟩
  refine .of_get? ((coherent_images d).named fun _ _ _ hi => hi.name) fun i hi => ?_
  obtain ⟨image, -, hi⟩ := Option.bind_eq_some_iff.1 (Option.mem_toList.1 hi)
  exact ⟨image, hi⟩

theorem coherent_place {containers : Keyed Container} {instances : Keyed Instance}
    (hname : ∀ key i, instances.get? key = some i → i.name = key) {key : String} {decl : Decl.Job} {j : Job}
    (h : place containers instances key decl = .ok j) : j.Coherent containers instances key decl := by
  obtain ⟨hj, rfl, hi, -, c, hc, ht, hcopies⟩ := place_eq_ok h
  refine ⟨hj, rfl, ht.trans hc.symm, .of_get? hname fun i him => ?_, c, ht, hcopies⟩
  rw [hi] at him
  exact Keyed.mem_values.1 (List.mem_of_mem_filter him)

theorem coherent_service {jobs : Keyed Job} (hname : ∀ key j, jobs.get? key = some j → j.name = key)
    {key : String} {elements : Decl.Service} {s : Service} (h : service jobs key elements = .ok s) :
    s.Coherent jobs key elements := by
  obtain ⟨hs, hjobs⟩ := service_eq_ok h
  exact ⟨hs, hjobs, .of_get? hname (Keyed.exists_get?_of_map_some hjobs)⟩

end Resolve

namespace Graph

theorem coherent_resolve {d : Document} {g : Graph} (h : resolve d = .ok g) : g.Coherent d := by
  obtain ⟨instances, hi, h⟩ := bind_eq_ok.1 h
  obtain ⟨jobs, hj, h⟩ := bind_eq_ok.1 h
  obtain ⟨services, hs, h⟩ := bind_eq_ok.1 h
  obtain ⟨deploys, hd, h⟩ := bind_eq_ok.1 h
  cases h
  have hci : Keyed.Related (Instance.Coherent (Resolve.disks d)) d.instances instances :=
    .of_traverse hi fun _ _ _ => Resolve.coherent_host
  have hcj : Keyed.Related (Job.Coherent (Resolve.containers d) instances) d.jobs jobs :=
    .of_traverse hj fun _ _ _ => Resolve.coherent_place (hci.named fun _ _ _ hc => hc.name)
  have hcs : Keyed.Related (Service.Coherent jobs) d.services services :=
    .of_traverse hs fun _ _ _ => Resolve.coherent_service (hcj.named fun _ _ _ hc => hc.name)
  have hdeploys := Resolve.deploys_eq_ok hd
  exact {
    disks := .of_mapWithKey fun _ _ => rfl
    instances := hci
    artifacts := .of_mapWithKey fun _ _ => rfl
    images := Resolve.coherent_images d
    containers := Resolve.coherent_containers d
    jobs := hcj
    services := hcs
    deploys := hdeploys
    holds := .of_get? (hcs.named fun _ _ _ hc => hc.name) (Keyed.exists_get?_of_map_some hdeploys) }

end Graph

/-! ### Binding keeps it so -/

section Binding

variable (f : String → String)

theorem Resolve.pairs_mapFields (mounts : List Volume) : pairs (mounts.map (mapFields f)) = pairs mounts := by
  simp only [pairs, List.map_map]
  rfl

theorem Instance.Coherent.mapFields {disks : Keyed Disk} {key : String} {decl : Decl.Instance} {i : Instance}
    (h : i.Coherent disks key decl) :
    (Templated.mapFields f i).Coherent (disks.map (Templated.mapFields f)) key decl where
  name := h.name
  volumes := h.volumes
  mounts := by
    intro w hw
    obtain ⟨v, hv, rfl⟩ := List.mem_map.1 hw
    obtain ⟨hhost, hdisk⟩ := h.mounts v hv
    refine ⟨hhost, ?_⟩
    rw [Keyed.get?_map]
    exact congrArg (Option.map (Templated.mapFields f)) hdisk
  mem_pairs := by
    intro label disk
    exact (Resolve.pairs_mapFields f i.mounts).symm ▸ h.mem_pairs label disk
  ascending := (Resolve.pairs_mapFields f i.mounts).symm ▸ h.ascending

theorem Image.Coherent.mapFields {artifacts : Keyed Artifact} {key : String} {decl : Decl.Image} {i : Image}
    (h : i.Coherent artifacts key decl) :
    (Templated.mapFields f i).Coherent (artifacts.map (Templated.mapFields f)) key decl where
  name := h.name
  declared := h.declared
  resolved := by
    change i.resolvedArtifacts.map (Templated.mapFields f) = _
    rw [h.resolved, List.map_filterMap]
    exact List.filterMap_congr fun a _ => (Keyed.get?_map _ artifacts a).symm

theorem Container.Coherent.mapFields {images : Keyed Image} {key : String} {decl : Decl.Container}
    {c : Container} (h : c.Coherent images key decl) :
    (Templated.mapFields f c).Coherent (images.map (Templated.mapFields f)) key decl where
  name := h.name
  target := by
    change c.targetImage.map (Templated.mapFields f) = _
    rw [h.target, Option.map_bind]
    exact congrArg decl.image.bind (funext fun k => (Keyed.get?_map _ images k).symm)
  holds := by
    change Keyed.Holds Image.name _ (c.targetImage.map (Templated.mapFields f)).toList
    rw [Option.toList_map]
    exact h.holds.map fun _ => rfl

theorem Job.Coherent.mapFields {containers : Keyed Container} {instances : Keyed Instance} {key : String}
    {decl : Decl.Job} {j : Job} (h : j.Coherent containers instances key decl) :
    (Templated.mapFields f j).Coherent (containers.map (Templated.mapFields f))
      (instances.map (Templated.mapFields f)) key decl where
  name := h.name
  container := h.container
  template := by
    rw [Keyed.get?_map]
    exact congrArg (Option.map (Templated.mapFields f)) h.template
  holds := h.holds.map fun _ => rfl
  copies := by
    obtain ⟨c, hc, hcopies⟩ := h.copies
    refine ⟨Templated.mapFields f c, congrArg (Option.map (Templated.mapFields f)) hc, ?_⟩
    change j.copies.map (Templated.mapFields f) = (j.instances.map (Templated.mapFields f)).map _
    -- names stay as they are, so it does not matter whether a copy is made before or after
    rw [hcopies, List.map_map, List.map_map]
    rfl

theorem Service.Coherent.mapFields {jobs : Keyed Job} {key : String} {elements : Decl.Service} {s : Service}
    (h : s.Coherent jobs key elements) :
    (Templated.mapFields f s).Coherent (jobs.map (Templated.mapFields f)) key elements where
  name := h.name
  listed := Keyed.map_some_map (Templated.mapFields f) h.listed
  holds := h.holds.map fun _ => rfl

theorem Graph.Coherent.mapFields {d : Document} {g : Graph} (h : g.Coherent d) :
    (Templated.mapFields f g).Coherent d where
  disks := h.disks.map fun _ _ _ hd => hd
  instances := h.instances.map fun _ _ _ hi => hi.mapFields f
  artifacts := h.artifacts.map fun _ _ _ ha => ha
  images := h.images.map fun _ _ _ hi => hi.mapFields f
  containers := h.containers.map fun _ _ _ hc => hc.mapFields f
  jobs := h.jobs.map fun _ _ _ hj => hj.mapFields f
  services := h.services.map fun _ _ _ hs => hs.mapFields f
  deploys := Keyed.map_some_map (Templated.mapFields f) h.deploys
  holds := h.holds.map fun _ => rfl

end Binding

namespace Graph

/-- A graph bound to one context after another, each in its own environment. -/
def bindAll (binds : List (Context × Environment)) (g : Graph) : Graph :=
  binds.foldl (fun g b => b.1.bind b.2 g) g

/-- The graph of a document stays coherent with it however often it is bound. -/
theorem coherent_bindAll {d : Document} {g : Graph} (h : resolve d = .ok g)
    (binds : List (Context × Environment)) : (g.bindAll binds).Coherent d := by
  have hkeep : ∀ g : Graph, g.Coherent d → (g.bindAll binds).Coherent d := by
    induction binds with
    | nil => exact fun _ hg => hg
    | cons b binds ih => exact fun g hg => ih _ (hg.mapFields _)
  exact hkeep g (coherent_resolve h)

def cluster : Document where
  deploys := ["web"]
  services := .ofList [("web", [.ofList [("front", .empty)]])]
  artifacts := .ofList [("site", { tag := some "\x7b\x7b.v\x7d\x7d" })]
  images := .ofList [("nginx", { artifacts := ["site", "gone", "site"] })]
  containers := .ofList [("proxy", { image := some "nginx", command := some "serve $PORT" })]
  disks := .ofList [("data", { diskType := some "\x7b\x7b.kind\x7d\x7d" })]
  instances := .ofList [("a", { volumes := .ofList [("logs", .ofList [("data", "/var")])] })]
  jobs := .ofList [("front", { container := "proxy" })]

/-- The first sets one variable and leaves the other template for the second. -/
def clusterBinds : List (Context × Environment) :=
  [({ values := .ofList [("v", "1.2")] }, .ofList [("PORT", "80")]),
    ({ values := .ofList [("kind", "$TIER")] }, .ofList [("TIER", "ssd")])]

theorem coherent_bindAll_cluster :
    ∃ g, resolve cluster = .ok g ∧
      (g.bindAll clusterBinds).deploys.flatMap fields =
        ["nginx", "serve 80", "1.2", "1.2", "/var", "ssd", "nginx", "serve 80", "1.2", "1.2"] ∧
      (g.bindAll clusterBinds).Coherent cluster := by
  have h : fault? (resolve cluster) = none := by decide +kernel
  obtain ⟨g, hg⟩ := fault?_eq_none.1 h
  have hf : ((resolve cluster).toOption.map fun g => (g.bindAll clusterBinds).deploys.flatMap fields) =
      some ["nginx", "serve 80", "1.2", "1.2", "/var", "ssd", "nginx", "serve 80", "1.2", "1.2"] := by
    decide +kernel
  rw [hg] at hf
  exact ⟨g, hg, Option.some.inj hf, coherent_bindAll hg clusterBinds⟩

end Graph

end Rollout
