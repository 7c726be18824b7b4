import Rollout.Proofs.Coherence

/-! The ports that a service exposes. A service may list a job in several of its elements, and then has it once for
each; but the ports of the job are those of the last element that lists it. So a service exposes every port that it
declares just when the last element of each job repeats what the earlier ones say. -/

namespace Rollout

theorem Keyed.lookup_reverse_entries {α : Type} (m : Keyed α) (k : String) :
    m.entries.reverse.lookup k = m.get? k := by
  have hnodup : (m.entries.reverse.map Prod.fst).Nodup := by
    rw [List.map_reverse, List.nodup_reverse]
    exact m.nodup_keys
  refine Option.ext fun a => ⟨fun h => ?_, fun h => ?_⟩
  · exact mem_entries.1 (List.mem_reverse.1 (mem_of_lookup_eq_some h))
  · exact lookup_eq_some_of_mem hnodup (List.mem_reverse.2 (mem_entries.2 h))

namespace Decl.Service

variable {elements : Decl.Service} {job : String}

def Lists (elements : Decl.Service) (job : String) (ports : PortList) : Prop :=
  ∃ element ∈ elements, element.get? job = some ports

/-- What the last element that lists a job lists for it. -/
def last? (elements : Decl.Service) (job : String) : Option PortList :=
  elements.reverse.findSome? fun element => element.get? job

/-- Where a job is listed last, all the ports that other elements give it are given again. -/
def Cumulative (elements : Decl.Service) : Prop :=
  ∀ job ports last ps kept, elements.Lists job ports → elements.last? job = some last →
    ports.parse = .ok ps → last.parse = .ok kept → ps ⊆ kept

theorem mem_flatMap_entries {ports : PortList} :
    (job, ports) ∈ elements.flatMap Keyed.entries ↔ elements.Lists job ports := by
  simp only [List.mem_flatMap, Keyed.mem_entries, Lists]

theorem lookup_reverse_flatMap (elements : Decl.Service) (job : String) :
    (elements.flatMap Keyed.entries).reverse.lookup job = elements.last? job := by
  unfold last?
  induction elements with
  | nil => rfl
  | cons element elements ih =>
    rw [List.flatMap_cons, List.reverse_append, List.lookup_append, ih, Keyed.lookup_reverse_entries,
      List.reverse_cons, List.findSome?_append, List.findSome?_singleton]

theorem lists_of_last? {last : PortList} (h : elements.last? job = some last) : elements.Lists job last := by
  obtain ⟨element, hmem, hget⟩ := List.exists_of_findSome?_eq_some h
  exact ⟨element, List.mem_reverse.1 hmem, hget⟩

theorem Lists.exists_last? {ports : PortList} (h : elements.Lists job ports) :
    ∃ last, elements.last? job = some last := by
  obtain ⟨element, hmem, hget⟩ := h
  refine Option.isSome_iff_exists.1 (List.findSome?_isSome_iff.2 ⟨element, List.mem_reverse.2 hmem, ?_⟩)
  rw [hget, Option.isSome_some]

theorem cumulative_of_nodup (h : (elements.flatMap Keyed.keys).Nodup) : elements.Cumulative := by
  intro job ports last ps kept hlists hlast hps hkept
  have hnodup : ((elements.flatMap Keyed.entries).map Prod.fst).Nodup := by
    rw [List.map_flatMap]
    exact h
  have hports := Keyed.lookup_eq_some_of_mem hnodup (mem_flatMap_entries.2 hlists)
  have hlast := Keyed.lookup_eq_some_of_mem hnodup (mem_flatMap_entries.2 (lists_of_last? hlast))
  obtain rfl : ports = last := Option.some.inj (hports.symm.trans hlast)
  obtain rfl : ps = kept := Except.ok.inj (hps.symm.trans hkept)
  exact List.Subset.refl ps

end Decl.Service

/-- Every port that the elements list for a job is among the ports of the job. -/
def Service.Exposes (s : Service) (elements : Decl.Service) : Prop :=
  ∀ job ports, elements.Lists job ports →
    ∃ ps kept, ports.parse = .ok ps ∧ s.ports.get? job = some kept ∧ ps ⊆ kept

namespace Resolve

variable {jobs : Keyed Job} {s s' : Service}

theorem expose_ports {key : String} {ports : PortList} (h : expose jobs s key ports = .ok s') :
    ∃ ps, ports.parse = .ok ps ∧ s'.ports = s.ports.insert key ps := by
  unfold expose at h
  split at h
  · cases h
  split at h
  · cases h
  rename_i ps hps
  cases h
  exact ⟨ps, hps, rfl⟩

/-- Every port list parses, and the ports of a job are those of its last entry: each replaces what was there. -/
theorem foldlM_expose_ports {es : List (String × PortList)}
    (h : es.foldlM (fun s e => expose jobs s e.1 e.2) s = .ok s') :
    (∀ e ∈ es, ∃ ps, e.2.parse = .ok ps) ∧
      ∀ job ps, s'.ports.get? job = some ps ↔
        (∃ last, es.reverse.lookup job = some last ∧ last.parse = .ok ps) ∨
          es.reverse.lookup job = none ∧ s.ports.get? job = some ps := by
  induction es generalizing s with
  | nil =>
    cases h
    simp
  | cons e es ih =>
    obtain ⟨key, ports⟩ := e
    rw [List.foldlM_cons] at h
    obtain ⟨s₁, h₁, h⟩ := bind_eq_ok.1 h
    obtain ⟨qs, hqs, hports⟩ := expose_ports h₁
    obtain ⟨hparse, hget⟩ := ih h
    refine ⟨List.forall_mem_cons.2 ⟨⟨qs, hqs⟩, hparse⟩, fun job ps => ?_⟩
    rw [hget, List.reverse_cons, List.lookup_append, hports, Keyed.get?_insert]
    cases es.reverse.lookup job with
    | some last => simp
    | none =>
      by_cases hjob : job = key
      · simp [hjob, hqs]
      · simp [Keyed.lookup_cons_ite, hjob]

theorem service_ports {key : String} {elements : Decl.Service} (h : service jobs key elements = .ok s) :
    (∀ job ports, elements.Lists job ports → ∃ ps, ports.parse = .ok ps) ∧
      ∀ job ps, s.ports.get? job = some ps ↔ ∃ last, elements.last? job = some last ∧ last.parse = .ok ps := by
  obtain ⟨hparse, hget⟩ := foldlM_expose_ports h
  refine ⟨fun job ports hlists => hparse _ (Decl.Service.mem_flatMap_entries.2 hlists), fun job ps => ?_⟩
  have hempty : (∅ : Keyed (List ExposedPort)).get? job = none := rfl
  rw [hget, Decl.Service.lookup_reverse_flatMap]
  simp [hempty]

theorem service_exposes_iff {key : String} {elements : Decl.Service} (h : service jobs key elements = .ok s) :
    s.Exposes elements ↔ elements.Cumulative := by
  obtain ⟨hparse, hget⟩ := service_ports h
  constructor
  · intro hexposes job ports last ps kept hlists hlast hps hkept
    obtain ⟨ps', kept', hps', hkept', hsub⟩ := hexposes job ports hlists
    obtain rfl : ps = ps' := Except.ok.inj (hps.symm.trans hps')
    obtain rfl : kept = kept' := Option.some.inj (((hget job kept).2 ⟨last, hlast, hkept⟩).symm.trans hkept')
    exact hsub
  · intro hcumulative job ports hlists
    obtain ⟨last, hlast⟩ := hlists.exists_last?
    obtain ⟨ps, hps⟩ := hparse job ports hlists
    obtain ⟨kept, hkept⟩ := hparse job last (Decl.Service.lists_of_last? hlast)
    exact ⟨ps, kept, hps, (hget job kept).2 ⟨last, hlast, hkept⟩,
      hcumulative job ports last ps kept hlists hlast hps hkept⟩

end Resolve

namespace Graph

theorem exists_service_of_resolve {d : Document} {g : Graph} (h : resolve d = .ok g) {key : String}
    {elements : Decl.Service} (he : d.services.get? key = some elements) :
    ∃ s, g.services.get? key = some s ∧ Resolve.service g.jobs key elements = .ok s := by
  obtain ⟨instances, -, h⟩ := bind_eq_ok.1 h
  obtain ⟨jobs, -, h⟩ := bind_eq_ok.1 h
  obtain ⟨services, hs, h⟩ := bind_eq_ok.1 h
  obtain ⟨deploys, -, h⟩ := bind_eq_ok.1 h
  cases h
  exact Keyed.exists_of_traverse hs he

/-- A service has one job for each entry of its elements, in order, and for each job the ports of its last entry. No
port is lost just when these repeat the others, as when no job is listed twice. -/
theorem service_exposes_last {d : Document} {g : Graph} (h : resolve d = .ok g) {key : String}
    {elements : Decl.Service} (he : d.services.get? key = some elements) :
    ∃ s, g.services.get? key = some s ∧
      s.jobs.map some = (elements.flatMap Keyed.keys).map g.jobs.get? ∧
      (∀ job ps, s.ports.get? job = some ps ↔ ∃ last, elements.last? job = some last ∧ last.parse = .ok ps) ∧
      (s.Exposes elements ↔ elements.Cumulative) ∧
      ((elements.flatMap Keyed.keys).Nodup → s.Exposes elements) := by
  obtain ⟨s, hg, hs⟩ := exists_service_of_resolve h he
  have hexposes := Resolve.service_exposes_iff hs
  exact ⟨s, hg, (Resolve.service_eq_ok hs).2, (Resolve.service_ports hs).2, hexposes,
    fun hnodup => hexposes.2 (Decl.Service.cumulative_of_nodup hnodup)⟩

def storefront : Document where
  services := .ofList
    [("front", [.ofList [("web", .single (.number 80))], .ofList [("web", .single (.number 443))]]),
      ("back", [.ofList [("web", .single (.number 80))], .ofList [("api", .single (.number 443))]])]
  containers := .ofList [("c", {})]
  instances := .ofList [("i", {})]
  jobs := .ofList [("api", { container := "c" }), ("web", { container := "c" })]

theorem service_exposes_last_back :
    ∃ g s elements, resolve storefront = .ok g ∧ storefront.services.get? "back" = some elements ∧
      g.services.get? "back" = some s ∧ elements.flatMap Keyed.keys = ["web", "api"] ∧ s.Exposes elements := by
  have h : fault? (resolve storefront) = none := by decide +kernel
  obtain ⟨g, hg⟩ := fault?_eq_none.1 h
  have he : storefront.services.get? "back" =
      some [.ofList [("web", .single (.number 80))], .ofList [("api", .single (.number 443))]] := by decide +kernel
  obtain ⟨s, hs, -, -, -, hexposes⟩ := service_exposes_last hg he
  exact ⟨g, s, _, hg, he, hs, by decide +kernel, hexposes (by decide +kernel)⟩

/-- The job is there twice, and its first port is gone. -/
theorem not_exposes_front :
    ∃ g s elements, resolve storefront = .ok g ∧ storefront.services.get? "front" = some elements ∧
      g.services.get? "front" = some s ∧ s.jobs.map Job.name = ["web", "web"] ∧
      s.ports.get? "web" = some [⟨443, 443, .tcp⟩] ∧
      elements.Lists "web" (.single (.number 80)) ∧ (PortList.single (.number 80)).parse = .ok [⟨80, 80, .tcp⟩] ∧
      ¬s.Exposes elements := by
  have hf : ((resolve storefront).toOption.map fun g =>
      (g.services.get? "front").map fun s => (s.jobs.map Job.name, s.ports.get? "web")) =
        some (some (["web", "web"], some [⟨443, 443, .tcp⟩])) := by decide +kernel
  obtain ⟨g, hg, hf⟩ := exists_of_map_toOption hf
  obtain ⟨s, hs, hf⟩ := Option.map_eq_some_iff.1 hf
  obtain ⟨hjobs, hports⟩ := Prod.mk.inj hf
  have hlists : Decl.Service.Lists
      [.ofList [("web", .single (.number 80))], .ofList [("web", .single (.number 443))]] "web"
        (.single (.number 80)) := ⟨_, List.mem_cons_self, by decide +kernel⟩
  have hparse : (PortList.single (.number 80)).parse = .ok [⟨80, 80, .tcp⟩] := by rfl
  refine ⟨g, s, _, hg, by decide +kernel, hs, hjobs, hports, hlists, hparse, fun hexposes => ?_⟩
  obtain ⟨ps, kept, hps, hkept, hsub⟩ := hexposes _ _ hlists
  obtain rfl := Except.ok.inj (hparse.symm.trans hps)
  obtain rfl := Option.some.inj (hports.symm.trans hkept)
  exact absurd (hsub List.mem_cons_self) (by decide)

end Graph

end Rollout
