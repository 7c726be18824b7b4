import Rollout.Proofs.Keyed

/-! The failure of a computation that may fail. Going through a list or a map fails as its first failing step
does, and a fold does so when its steps fail alike from every state that the fold can be in. Computations whose
steps give the image of one another's results do so as a whole. -/

namespace Rollout

variable {α β ε σ : Type}

/-- The failure, if it is one. -/
def fault? : Except ε α → Option ε
  | .error e => some e
  | .ok _ => none

@[simp] theorem fault?_error (e : ε) : fault? (.error e : Except ε α) = some e := rfl

@[simp] theorem fault?_ok (a : α) : fault? (.ok a : Except ε α) = none := rfl

theorem fault?_eq_some {x : Except ε α} {e : ε} : fault? x = some e ↔ x = .error e := by
  cases x <;> simp

theorem fault?_eq_none {x : Except ε α} : fault? x = none ↔ ∃ a, x = .ok a := by
  cases x <;> simp

@[simp] theorem fault?_map (f : α → β) (x : Except ε α) : fault? (x.map f) = fault? x := by
  cases x <;> rfl

@[simp] theorem fault?_bind_pure (f : α → β) (x : Except ε α) :
    fault? (x >>= fun a => pure (f a)) = fault? x := by
  cases x <;> rfl

theorem exists_of_map_toOption {f : α → β} {x : Except ε α} {b : β} (h : x.toOption.map f = some b) :
    ∃ a, x = .ok a ∧ f a = b := by
  cases x with
  | error e => cases h
  | ok a => exact ⟨a, rfl, Option.some.inj h⟩

/-- Peels the first step off a computation. -/
theorem bind_eq_ok {x : Except ε α} {f : α → Except ε β} {b : β} :
    x >>= f = .ok b ↔ ∃ a, x = .ok a ∧ f a = .ok b := by
  cases x <;> simp [bind, Except.bind]

theorem map_eq_ok {f : α → β} {x : Except ε α} {b : β} : x.map f = .ok b ↔ ∃ a, x = .ok a ∧ f a = b := by
  cases x <;> simp [Except.map]

theorem mapError_eq_ok {τ : Type} {f : ε → τ} {x : Except ε α} {a : α} : x.mapError f = .ok a ↔ x = .ok a := by
  cases x <;> simp [Except.mapError]

theorem mapError_eq_error {τ : Type} {f : ε → τ} {x : Except ε α} {e : τ} :
    x.mapError f = .error e ↔ ∃ e', x = .error e' ∧ f e' = e := by
  cases x <;> simp [Except.mapError]

theorem fault?_bind (x : Except ε α) (f : α → Except ε β) (g : Option ε)
    (h : ∀ a, x = .ok a → fault? (f a) = g) : fault? (x >>= f) = (fault? x).or g := by
  cases x with
  | error e => rfl
  | ok a => exact h a rfl

theorem fault?_mapM (f : α → Except ε β) (l : List α) :
    fault? (l.mapM f) = l.findSome? fun a => fault? (f a) := by
  induction l with
  | nil => rfl
  | cons a l ih =>
    rw [List.mapM_cons, List.findSome?_cons]
    cases h : f a with
    | error e => rfl
    | ok b =>
      rw [fault?_ok, ← ih]
      exact fault?_bind_pure _ _

theorem forall₂_of_mapM {f : α → Except ε β} {l : List α} {r : List β} (h : l.mapM f = .ok r) :
    List.Forall₂ (fun a b => f a = .ok b) l r := by
  induction l generalizing r with
  | nil =>
    cases h
    exact .nil
  | cons a l ih =>
    rw [List.mapM_cons] at h
    obtain ⟨b, hb, h⟩ := bind_eq_ok.1 h
    obtain ⟨bs, hbs, h⟩ := bind_eq_ok.1 h
    cases h
    exact .cons hb (ih hbs)

theorem exists_of_mem_mapM {f : α → Except ε β} {l : List α} {r : List β} (h : l.mapM f = .ok r) {b : β}
    (hb : b ∈ r) : ∃ a ∈ l, f a = .ok b := by
  have hall := forall₂_of_mapM h
  clear h
  induction hall with
  | nil => cases hb
  | cons hab _ ih =>
    rcases List.mem_cons.1 hb with rfl | hb
    · exact ⟨_, List.mem_cons_self, hab⟩
    · obtain ⟨a, ha, hf⟩ := ih hb
      exact ⟨a, List.mem_cons_of_mem _ ha, hf⟩

theorem fault?_foldlM (I : σ → Prop) {f : σ → α → Except ε σ} {g : α → Option ε}
    (hkeep : ∀ s a s', I s → f s a = .ok s' → I s') (hfault : ∀ s a, I s → fault? (f s a) = g a)
    (l : List α) : ∀ s, I s → fault? (l.foldlM f s) = l.findSome? g := by
  induction l with
  | nil => intro s _; rfl
  | cons a l ih =>
    intro s hs
    rw [List.foldlM_cons, List.findSome?_cons, ← hfault s a hs]
    cases h : f s a with
    | error e => rfl
    | ok s' => exact ih s' (hkeep s a s' hs h)

theorem Keyed.fault?_traverse (f : String → α → Except ε β) (m : Keyed α) :
    fault? (m.traverse f) = m.entries.findSome? fun e => fault? (f e.1 e.2) := by
  have hentries : ∀ es : List (String × α),
      fault? (traverseEntries f es) = es.findSome? fun e => fault? (f e.1 e.2) := by
    intro es
    induction es with
    | nil => rfl
    | cons e es ih =>
      obtain ⟨k, a⟩ := e
      rw [List.findSome?_cons, traverseEntries]
      cases f k a with
      | error e => rfl
      | ok b =>
        simp only [fault?_ok, ← ih]
        cases traverseEntries f es <;> rfl
  rw [← hentries, traverse]
  cases traverseEntries f m.entries <;> rfl

/-! ### Computations that go alike -/

section Alike

variable {γ δ τ : Type}

theorem bind_alike {x : Except ε α} {x' : Except ε γ} {k : α → γ} {f : α → Except ε β} {f' : γ → Except ε δ}
    {l : β → δ} (hx : x' = x.map k) (hf : ∀ a, f' (k a) = (f a).map l) : x' >>= f' = (x >>= f).map l := by
  subst hx
  cases x with
  | error e => rfl
  | ok a => exact hf a

theorem mapM_alike {f : α → Except ε β} {f' : α → Except ε γ} {k : β → γ} (h : ∀ a, f' a = (f a).map k)
    (l : List α) : l.mapM f' = (l.mapM f).map (List.map k) := by
  induction l with
  | nil => rfl
  | cons a l ih =>
    rw [List.mapM_cons, List.mapM_cons]
    exact bind_alike (h a) fun b => bind_alike ih fun bs => rfl

theorem foldlM_alike {f : σ → α → Except ε σ} {f' : τ → α → Except ε τ} {k : σ → τ}
    (h : ∀ s a, f' (k s) a = (f s a).map k) (l : List α) (s : σ) :
    l.foldlM f' (k s) = (l.foldlM f s).map k := by
  induction l generalizing s with
  | nil => rfl
  | cons a l ih =>
    rw [List.foldlM_cons, List.foldlM_cons]
    exact bind_alike (h s a) ih

theorem Keyed.traverse_alike {f : String → α → Except ε β} {f' : String → γ → Except ε δ} {g : α → γ} {k : β → δ}
    (h : ∀ key a, f' key (g a) = (f key a).map k) (m : Keyed α) :
    (m.map g).traverse f' = (m.traverse f).map (Keyed.map k) := by
  have hfault : fault? ((m.map g).traverse f') = fault? (m.traverse f) := by
    rw [Keyed.fault?_traverse, Keyed.fault?_traverse]
    simp [Keyed.map, Keyed.mapWithKey, List.findSome?_map, Function.comp_def, h]
  cases hr : m.traverse f with
  | error e =>
    rw [hr] at hfault
    exact fault?_eq_some.1 hfault
  | ok r =>
    rw [hr] at hfault
    obtain ⟨r', hr'⟩ := fault?_eq_none.1 hfault
    have hvalues : r' = r.map k := by
      refine Keyed.ext_get? fun key => Option.ext fun b => ?_
      rw [Keyed.get?_of_traverse hr', Keyed.get?_map, Keyed.get?_map, Option.map_eq_some_iff]
      simp only [Option.map_eq_some_iff, Keyed.get?_of_traverse hr]
      constructor
      · rintro ⟨_, ⟨a, ha, rfl⟩, hb⟩
        rw [h] at hb
        obtain ⟨c, hc, hk⟩ := map_eq_ok.1 hb
        exact ⟨c, ⟨a, ha, hc⟩, hk⟩
      · rintro ⟨c, ⟨a, ha, hc⟩, hk⟩
        exact ⟨g a, ⟨a, ha, rfl⟩, by rw [h]; exact map_eq_ok.2 ⟨c, hc, hk⟩⟩
    rw [hr', hvalues]
    rfl

end Alike

end Rollout
