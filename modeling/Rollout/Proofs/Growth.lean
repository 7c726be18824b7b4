import Rollout.Proofs.Placement

/-! Growing the fleet. An instance that is added to a document breaks nothing that resolves without it: it joins
the jobs whose labels it offers, in the place that its name gives it, and all else stays. The tiers are compared one
after another, each a computation that follows the one for the smaller document step by step. -/

namespace Rollout

/-! ### Computations that follow one another -/

section Follows

variable {α β γ ε σ τ : Type}

theorem mapM_follows {f : α → Except ε β} {f' : α → Except ε γ} {R : β → γ → Prop} {l : List α} {r : List β}
    (h : l.mapM f = .ok r) (hstep : ∀ a b, f a = .ok b → ∃ c, f' a = .ok c ∧ R b c) :
    ∃ r', l.mapM f' = .ok r' ∧ List.Forall₂ R r r' := by
  induction l generalizing r with
  | nil =>
    cases h
    exact ⟨[], rfl, .nil⟩
  | cons a l ih =>
    rw [List.mapM_cons] at h ⊢
    obtain ⟨b, hb, h⟩ := bind_eq_ok.1 h
    obtain ⟨bs, hbs, h⟩ := bind_eq_ok.1 h
    cases h
    obtain ⟨c, hc, hR⟩ := hstep a b hb
    obtain ⟨cs, hcs, hRs⟩ := ih hbs
    exact ⟨c :: cs, bind_eq_ok.2 ⟨c, hc, bind_eq_ok.2 ⟨cs, hcs, rfl⟩⟩, .cons hR hRs⟩

theorem foldlM_follows {f : σ → α → Except ε σ} {f' : τ → α → Except ε τ} {R : σ → τ → Prop} {l : List α} {s t : σ}
    {s' : τ} (h : l.foldlM f s = .ok t) (hs : R s s')
    (hstep : ∀ s s' a t, R s s' → f s a = .ok t → ∃ t', f' s' a = .ok t' ∧ R t t') :
    ∃ t', l.foldlM f' s' = .ok t' ∧ R t t' := by
  induction l generalizing s s' with
  | nil =>
    cases h
    exact ⟨s', rfl, hs⟩
  | cons a l ih =>
    rw [List.foldlM_cons] at h ⊢
    obtain ⟨s₁, h₁, h⟩ := bind_eq_ok.1 h
    obtain ⟨s₁', h₁', hs₁⟩ := hstep s s' a s₁ hs h₁
    obtain ⟨t', h', ht⟩ := ih h hs₁
    exact ⟨t', bind_eq_ok.2 ⟨s₁', h₁', h'⟩, ht⟩

namespace Keyed

theorem exists_traverse {f : String → α → Except ε β} {m : Keyed α}
    (h : ∀ key a, m.get? key = some a → ∃ b, f key a = .ok b) : ∃ r, m.traverse f = .ok r := by
  rw [← fault?_eq_none, fault?_traverse, List.findSome?_eq_none_iff]
  rintro ⟨key, a⟩ he
  exact fault?_eq_none.2 (h key a (mem_entries.1 he))

theorem traverse_follows {f : String → α → Except ε β} {f' : String → α → Except ε γ}
    {R : String → β → γ → Prop} {m : Keyed α} {r : Keyed β} (h : m.traverse f = .ok r)
    (hstep : ∀ key a b, f key a = .ok b → ∃ c, f' key a = .ok c ∧ R key b c) :
    ∃ r', m.traverse f' = .ok r' ∧ Related R r r' := by
  obtain ⟨r', hr'⟩ : ∃ r', m.traverse f' = .ok r' := by
    refine exists_traverse fun key a ha => ?_
    obtain ⟨b, -, hf⟩ := exists_of_traverse h ha
    obtain ⟨c, hc, -⟩ := hstep key a b hf
    exact ⟨c, hc⟩
  refine ⟨r', hr', (keys_of_traverse hr').trans (keys_of_traverse h).symm, fun key c hc => ?_⟩
  obtain ⟨a, ha, hfc⟩ := (get?_of_traverse hr' key c).1 hc
  obtain ⟨b, hb, hfb⟩ := exists_of_traverse h ha
  obtain ⟨c', hc', hR⟩ := hstep key a b hfb
  obtain rfl : c = c' := Except.ok.inj (hfc.symm.trans hc')
  exact ⟨b, hb, hR⟩

/-! ### A map with one more entry -/

theorem traverse_insert {f : String → α → Except ε β} {m : Keyed α} {r : Keyed β} (h : m.traverse f = .ok r)
    {k : String} {a : α} {b : β} (hb : f k a = .ok b) : (m.insert k a).traverse f = .ok (r.insert k b) := by
  obtain ⟨r', hr'⟩ : ∃ r', (m.insert k a).traverse f = .ok r' := by
    refine exists_traverse fun key c hc => ?_
    rw [get?_insert] at hc
    split at hc
    · rename_i hkey
      cases hc
      exact ⟨b, hkey ▸ hb⟩
    · obtain ⟨b', -, hf⟩ := exists_of_traverse h hc
      exact ⟨b', hf⟩
  have heq : r' = r.insert k b := by
    refine ext_get? fun key => Option.ext fun c => ?_
    rw [get?_of_traverse hr', get?_insert, get?_insert]
    split
    · rename_i hkey
      subst hkey
      simp [hb]
    · exact (get?_of_traverse h key c).symm
  rw [hr', heq]

theorem insertEntry_split {k : String} (a : α) {es : List (String × α)} (h : (es.map Prod.fst).Pairwise (· < ·))
    (hk : k ∉ es.map Prod.fst) :
    ∃ before after, es = before ++ after ∧ insertEntry k a es = before ++ (k, a) :: after ∧
      (∀ e ∈ before, e.1 < k) ∧ ∀ e ∈ after, k < e.1 := by
  induction es with
  | nil => exact ⟨[], [], rfl, rfl, by simp, by simp⟩
  | cons e es ih =>
    obtain ⟨k', a'⟩ := e
    simp only [List.map_cons, List.pairwise_cons, List.mem_cons, not_or] at h hk
    unfold insertEntry
    split
    · rename_i hlt
      refine ⟨[], (k', a') :: es, rfl, rfl, by simp, fun e he => ?_⟩
      rcases List.mem_cons.1 he with rfl | he
      · exact hlt
      · exact String.lt_trans hlt (h.1 e.1 (List.mem_map_of_mem he))
    · split
      · rename_i hlt
        obtain ⟨before, after, rfl, hins, hbefore, hafter⟩ := ih h.2 hk.2
        refine ⟨(k', a') :: before, after, rfl, by rw [hins]; rfl, fun e he => ?_, hafter⟩
        rcases List.mem_cons.1 he with rfl | he
        · exact hlt
        · exact hbefore e he
      · rename_i h₁ h₂
        exact absurd (String.le_antisymm (String.not_lt.1 h₂) (String.not_lt.1 h₁)) hk.1

theorem values_insert {name : α → String} {m : Keyed α} (hname : ∀ key a, m.get? key = some a → name a = key)
    {k : String} (hk : m.get? k = none) (a : α) :
    ∃ before after, m.values = before ++ after ∧ (m.insert k a).values = before ++ a :: after ∧
      (∀ b ∈ before, name b < k) ∧ ∀ b ∈ after, k < name b := by
  obtain ⟨before, after, hsplit, hins, hbefore, hafter⟩ := insertEntry_split a m.ascending (get?_eq_none.1 hk)
  have hnamed : ∀ e ∈ before ++ after, name e.2 = e.1 := by
    intro e he
    rw [← hsplit] at he
    exact hname e.1 e.2 (mem_entries.1 he)
  refine ⟨before.map Prod.snd, after.map Prod.snd, ?_, ?_, fun b hb => ?_, fun b hb => ?_⟩
  · rw [values, hsplit, List.map_append]
  · change (insertEntry k a m.entries).map Prod.snd = _
    rw [hins, List.map_append, List.map_cons]
  · obtain ⟨e, he, rfl⟩ := List.mem_map.1 hb
    rw [hnamed e (List.mem_append_left _ he)]
    exact hbefore e he
  · obtain ⟨e, he, rfl⟩ := List.mem_map.1 hb
    rw [hnamed e (List.mem_append_right _ he)]
    exact hafter e he

end Keyed

end Follows

/-! ### What grows and what stays -/

/-- The job with one more instance, where the name of the instance puts it, and a copy of the container for it. -/
def Job.Gains (x : Instance) (j j' : Job) : Prop :=
  ∃ n c, j.template = some c ∧ (∀ i ∈ j.instances.take n, i.name < x.name) ∧
    (∀ i ∈ j.instances.drop n, x.name < i.name) ∧
    j' = { j with
      instances := j.instances.take n ++ x :: j.instances.drop n
      copies := j.copies.take n ++ { c with targetInstance := some x.name } :: j.copies.drop n }

/-- The job gains an instance that offers its labels, and no other. -/
structure Job.Grows (x : Instance) (j j' : Job) : Prop where
  gains : x.Offers j.toJob → j.Gains x j'
  stays : ¬x.Offers j.toJob → j' = j

/-- The service has the same jobs, grown, and the same ports. -/
structure Service.Grows (x : Instance) (s s' : Service) : Prop where
  name : s'.name = s.name
  jobs : List.Forall₂ (Job.Grows x) s.jobs s'.jobs
  names : s'.jobs.map Job.name = s.jobs.map Job.name
  ports : s'.ports = s.ports

structure Graph.Grows (key : String) (x : Instance) (g g' : Graph) : Prop where
  disks : g'.disks = g.disks
  instances : g'.instances = g.instances.insert key x
  artifacts : g'.artifacts = g.artifacts
  images : g'.images = g.images
  containers : g'.containers = g.containers
  jobs : Keyed.Related (fun _ => Job.Grows x) g.jobs g'.jobs
  services : Keyed.Related (fun _ => Service.Grows x) g.services g'.services
  deploys : List.Forall₂ (Service.Grows x) g.deploys g'.deploys

theorem Job.Grows.name {x : Instance} {j j' : Job} (h : j.Grows x j') : j'.name = j.name := by
  by_cases ho : x.Offers j.toJob
  · obtain ⟨n, c, -, -, -, rfl⟩ := h.gains ho
    rfl
  · rw [h.stays ho]

namespace Resolve

variable {containers : Keyed Container} {instances : Keyed Instance} {k : String} {x : Instance}

theorem hosts_insert (hname : ∀ key i, instances.get? key = some i → i.name = key) (hk : instances.get? k = none)
    (x : Instance) (p : Instance → Bool) :
    ∃ before after, instances.values.filter p = before ++ after ∧
      (instances.insert k x).values.filter p = before ++ (if p x then x :: after else after) ∧
      (∀ i ∈ before, i.name < k) ∧ ∀ i ∈ after, k < i.name := by
  obtain ⟨before, after, hvalues, hvalues', hbefore, hafter⟩ := Keyed.values_insert hname hk x
  refine ⟨before.filter p, after.filter p, ?_, ?_, fun i hi => ?_, fun i hi => ?_⟩
  · rw [hvalues, List.filter_append]
  · rw [hvalues', List.filter_append, List.filter_cons]
  · exact hbefore i (List.mem_of_mem_filter hi)
  · exact hafter i (List.mem_of_mem_filter hi)

/-- One more instance keeps a job where it is and adds a place if it offers the labels. -/
theorem place_insert (hname : ∀ key i, instances.get? key = some i → i.name = key)
    (hk : instances.get? k = none) (hx : x.name = k) (hlabels : x.labelSet = x.labels.parse) {key : String}
    {decl : Decl.Job} {j : Job} (h : place containers instances key decl = .ok j) :
    ∃ j', place containers (instances.insert k x) key decl = .ok j' ∧ j.Grows x j' := by
  obtain ⟨template, hosts, ht, hhosts, hne, rfl⟩ := place_eq_ok_iff.1 h
  obtain ⟨before, after, hsplit, hsplit', hbefore, hafter⟩ :=
    hosts_insert hname hk x fun i => decl.instanceLabels.parse.satisfies i.labelSet
  have hoffers : decl.instanceLabels.parse.satisfies x.labelSet = true ↔ x.Offers decl := by
    rw [LabelSet.satisfies_iff, hlabels]
    rfl
  rw [hsplit] at hhosts
  by_cases ho : x.Offers decl
  · rw [if_pos (hoffers.2 ho)] at hsplit'
    have htake : hosts.take before.length = before := by rw [hhosts, List.take_left]
    have hdrop : hosts.drop before.length = after := by rw [hhosts, List.drop_left]
    refine ⟨_, place_eq_ok_iff.2 ⟨template, before ++ x :: after, ht, hsplit'.symm, by simp, rfl⟩,
      ⟨fun _ => ⟨before.length, template, rfl, ?_, ?_, ?_⟩, fun hn => absurd ho hn⟩⟩
    · simpa only [htake, hx] using hbefore
    · simpa only [hdrop, hx] using hafter
    · simp only [← List.map_take, ← List.map_drop, htake, hdrop, List.map_append, List.map_cons]
  · rw [if_neg fun hs => ho (hoffers.1 hs), ← hhosts] at hsplit'
    exact ⟨_, place_eq_ok_iff.2 ⟨template, hosts, ht, hsplit'.symm, hne, rfl⟩,
      ⟨fun hy => absurd hy ho, fun _ => rfl⟩⟩

theorem expose_follows {jobs jobs' : Keyed Job} (hjobs : Keyed.Related (fun _ => Job.Grows x) jobs jobs')
    {s s' t : Service} (hs : s.Grows x s') {e : String × PortList} (h : expose jobs s e.1 e.2 = .ok t) :
    ∃ t', expose jobs' s' e.1 e.2 = .ok t' ∧ t.Grows x t' := by
  unfold expose at h ⊢
  split at h
  · cases h
  rename_i j hj
  split at h
  · cases h
  rename_i ports hports
  cases h
  obtain ⟨j', hj', hgrows⟩ := hjobs.exists_of_get? hj
  refine ⟨{ s' with jobs := s'.jobs ++ [j'], ports := s'.ports.insert e.1 ports }, by simp only [hj'], ?_⟩
  exact {
    name := hs.name
    jobs := List.rel_append hs.jobs (.cons hgrows .nil)
    names := by
      simp only [List.map_append, hs.names, List.map_cons, List.map_nil, hgrows.name]
    ports := congrArg (Keyed.insert · e.1 ports) hs.ports }

theorem service_follows {jobs jobs' : Keyed Job} (hjobs : Keyed.Related (fun _ => Job.Grows x) jobs jobs')
    {key : String} {elements : Decl.Service} {s : Service} (h : service jobs key elements = .ok s) :
    ∃ s', service jobs' key elements = .ok s' ∧ s.Grows x s' := by
  unfold service at h ⊢
  have hstart : Service.Grows x { name := key } { name := key } := ⟨rfl, .nil, rfl, rfl⟩
  exact foldlM_follows h hstart fun _ _ _ _ hs he => expose_follows hjobs hs he

theorem deploys_follows {services services' : Keyed Service}
    (hservices : Keyed.Related (fun _ => Service.Grows x) services services') {keys : List String}
    {ss : List Service} (h : deploys services keys = .ok ss) :
    ∃ ss', deploys services' keys = .ok ss' ∧ List.Forall₂ (Service.Grows x) ss ss' := by
  refine mapM_follows h fun key s hs => ?_
  split at hs
  · cases hs
  rename_i s₁ hg
  cases hs
  obtain ⟨s', hs', hgrows⟩ := hservices.exists_of_get? hg
  exact ⟨s', by rw [hs'], hgrows⟩

end Resolve

def Document.withInstance (d : Document) (key : String) (x : Decl.Instance) : Document :=
  { d with instances := d.instances.insert key x }

namespace Graph

/-- A document that resolves still does with one more instance whose disks it declares. The instance joins the jobs
whose labels it offers, and nothing else in the graph changes but the copies of these jobs. -/
theorem resolve_grows {d : Document} {g : Graph} (h : resolve d = .ok g) {key : String} {x : Decl.Instance}
    (hkey : d.instances.get? key = none)
    (hdisks : ∀ label points, x.volumes.get? label = some points → ∀ disk ∈ points.keys, disk ∈ d.disks.keys) :
    ∃ i g', Resolve.host g.disks key x = .ok i ∧ resolve (d.withInstance key x) = .ok g' ∧ g.Grows key i g' := by
  have hname : ∀ key i, g.instances.get? key = some i → i.name = key :=
    (coherent_resolve h).instances.named fun _ _ _ hi => hi.name
  obtain ⟨instances, hi, h⟩ := bind_eq_ok.1 h
  obtain ⟨jobs, hj, h⟩ := bind_eq_ok.1 h
  obtain ⟨services, hs, h⟩ := bind_eq_ok.1 h
  obtain ⟨deploys, hd, h⟩ := bind_eq_ok.1 h
  cases h
  obtain ⟨i, hhost⟩ : ∃ i, Resolve.host (Resolve.disks d) key x = .ok i := by
    rw [← fault?_eq_none, Resolve.fault?_host, List.head?_eq_none_iff]
    exact Document.danglingDisks_eq_nil.2 hdisks
  obtain ⟨hiname, rfl, hlabels, -⟩ := Resolve.host_eq_ok hhost
  have hnew : instances.get? key = none := by
    rw [Keyed.get?_eq_none, Keyed.keys_of_traverse hi]
    exact Keyed.get?_eq_none.1 hkey
  have hi' : Resolve.instances (d.withInstance key i.toInstance) = .ok (instances.insert key i) :=
    Keyed.traverse_insert hi hhost
  obtain ⟨jobs', hj', hjobs⟩ := Keyed.traverse_follows hj fun _ _ _ =>
    Resolve.place_insert hname hnew hiname hlabels
  obtain ⟨services', hs', hservices⟩ := Keyed.traverse_follows hs fun _ _ _ => Resolve.service_follows hjobs
  obtain ⟨deploys', hd', hdeploys⟩ := Resolve.deploys_follows hservices hd
  refine ⟨i, _, hhost, bind_eq_ok.2 ⟨_, hi', bind_eq_ok.2 ⟨_, hj', bind_eq_ok.2 ⟨_, hs', bind_eq_ok.2 ⟨_, hd',
    rfl⟩⟩⟩⟩, ?_⟩
  exact ⟨rfl, rfl, rfl, rfl, rfl, hjobs, hservices, hdeploys⟩

def convoy : Document :=
  { fleet with
    disks := .ofList [("data", { sizeGb := some 5 })]
    services := .ofList [("site", [.ofList [("front", .single (.number 80))], .ofList [("any", .empty)]])]
    deploys := ["site"] }

/-- Offers what one of the jobs requires and not what the other does. -/
def newcomer : Decl.Instance where
  labels := .inline "web us"
  volumes := .ofList [("logs", .ofList [("data", "/var")])]

def hosting (g : Graph) : List (Option (List String)) × List (List String) :=
  (["any", "front"].map fun key => (g.jobs.get? key).map fun j => j.instances.map Instance.name,
    g.deploys.map fun s => s.jobs.map Job.name)

theorem resolve_grows_convoy :
    ∃ g i g', resolve convoy = .ok g ∧ resolve (convoy.withInstance "kiel" newcomer) = .ok g' ∧
      g.hosting = ([some ["bonn", "lima", "oslo"], some ["bonn", "oslo"]], [["front", "any"]]) ∧
      g'.hosting = ([some ["bonn", "kiel", "lima", "oslo"], some ["bonn", "oslo"]], [["front", "any"]]) ∧
      g.Grows "kiel" i g' := by
  have h : (resolve convoy).toOption.map hosting =
      some ([some ["bonn", "lima", "oslo"], some ["bonn", "oslo"]], [["front", "any"]]) := by decide +kernel
  have h' : (resolve (convoy.withInstance "kiel" newcomer)).toOption.map hosting =
      some ([some ["bonn", "kiel", "lima", "oslo"], some ["bonn", "oslo"]], [["front", "any"]]) := by decide +kernel
  obtain ⟨g, hg, hbefore⟩ := exists_of_map_toOption h
  have hdisks : ∀ label points, newcomer.volumes.get? label = some points →
      ∀ disk ∈ points.keys, disk ∈ convoy.disks.keys := by
    have hall : ∀ e ∈ newcomer.volumes.entries, ∀ disk ∈ e.2.keys, disk ∈ convoy.disks.keys := by decide +kernel
    exact fun label points hp => hall (label, points) (Keyed.mem_entries.2 hp)
  have hkey : convoy.instances.get? "kiel" = none := by decide +kernel
  obtain ⟨i, g', -, hg', hgrows⟩ := resolve_grows hg hkey hdisks
  rw [hg'] at h'
  exact ⟨g, i, g', hg, hg', hbefore, Option.some.inj h', hgrows⟩

end Graph

end Rollout
