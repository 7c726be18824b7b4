import Rollout.Keyed
import Mathlib.Data.List.Forall2
import Mathlib.Data.List.Nodup

/-! What a map is to its readers: the value at each key. A map is determined by its values, overriding is
associative, and a traversal is a pointwise relation between the entries before and after. -/

namespace Rollout.Keyed

variable {α β ε : Type}

theorem nodup_keys (m : Keyed α) : (m.entries.map Prod.fst).Nodup :=
  m.ascending.imp fun h => String.ne_of_lt h

theorem lookup_cons_ite (k k' : String) (a : α) (es : List (String × α)) :
    ((k', a) :: es).lookup k = if k = k' then some a else es.lookup k := by
  by_cases h : k = k'
  · simp [h]
  · rw [List.lookup_cons, beq_eq_false_iff_ne.2 h, if_neg h]

theorem lookup_eq_some_of_mem {es : List (String × α)} (h : (es.map Prod.fst).Nodup) {k : String} {a : α}
    (hm : (k, a) ∈ es) : es.lookup k = some a := by
  induction es with
  | nil => simp at hm
  | cons e es ih =>
    obtain ⟨k', a'⟩ := e
    simp only [List.map_cons, List.nodup_cons] at h
    rcases List.mem_cons.1 hm with he | hm
    · cases he
      simp
    · have hne : k ≠ k' := by
        intro he
        exact h.1 (List.mem_map.2 ⟨(k, a), hm, he⟩)
      rw [lookup_cons_ite, if_neg hne]
      exact ih h.2 hm

theorem mem_of_lookup_eq_some {κ : Type} [BEq κ] [LawfulBEq κ] {es : List (κ × α)} {k : κ} {a : α}
    (h : es.lookup k = some a) : (k, a) ∈ es := by
  obtain ⟨before, after, rfl, -⟩ := List.lookup_eq_some_iff.1 h
  simp

theorem mem_entries {m : Keyed α} {k : String} {a : α} : (k, a) ∈ m.entries ↔ m.get? k = some a :=
  ⟨lookup_eq_some_of_mem m.nodup_keys, mem_of_lookup_eq_some⟩

theorem mem_keys {m : Keyed α} {k : String} : k ∈ m.keys ↔ ∃ a, m.get? k = some a := by
  simp [keys, mem_entries]

theorem get?_eq_none {m : Keyed α} {k : String} : m.get? k = none ↔ k ∉ m.keys := by
  rw [mem_keys, Option.eq_none_iff_forall_ne_some, not_exists]

theorem isEmpty_iff {m : Keyed α} : m.isEmpty = true ↔ m.keys = [] := by
  simp [isEmpty, keys]

theorem eq_empty_of_isEmpty {m : Keyed α} (h : m.isEmpty) : m = ∅ := by
  obtain ⟨es, _⟩ := m
  obtain rfl := List.isEmpty_iff.1 h
  rfl

theorem mem_values {m : Keyed α} {a : α} : a ∈ m.values ↔ ∃ k, m.get? k = some a := by
  simp [values, mem_entries]

/-- Maps with the same value at every key are equal. -/
theorem ext_get? {a b : Keyed α} (h : ∀ k, a.get? k = b.get? k) : a = b := by
  have hp : a.entries.Perm b.entries := by
    refine (List.perm_ext_iff_of_nodup a.nodup_keys.of_map b.nodup_keys.of_map).2 fun e => ?_
    rw [mem_entries, mem_entries, h]
  have he : a.entries = b.entries := by
    refine hp.eq_of_pairwise (fun x y _ _ hxy hyx => ?_) (List.pairwise_map.1 a.ascending)
      (List.pairwise_map.1 b.ascending)
    exact absurd hyx (String.lt_asymm hxy)
  cases a
  cases b
  simpa using he

theorem ext_values {a b : Keyed α} (hkeys : a.keys = b.keys) (hvalues : a.values = b.values) : a = b := by
  have he : a.entries = b.entries := (List.zip_of_prod hkeys hvalues).trans (List.zip_of_prod rfl rfl).symm
  cases a
  cases b
  simpa using he

/-! ### Insertion and overriding -/

theorem lookup_insertEntry (k : String) (a : α) (es : List (String × α)) (x : String) :
    (insertEntry k a es).lookup x = if x = k then some a else es.lookup x := by
  induction es with
  | nil => rw [insertEntry, lookup_cons_ite]
  | cons e es ih =>
    obtain ⟨k', a'⟩ := e
    unfold insertEntry
    split
    · rw [lookup_cons_ite]
    · split
      · rename_i hlt
        have hne : k' ≠ k := String.ne_of_lt hlt
        rw [lookup_cons_ite, lookup_cons_ite, ih]
        by_cases h : x = k'
        · simp [h, hne]
        · simp [h]
      · rename_i h1 h2
        have hk : k = k' := String.le_antisymm (String.not_lt.1 h2) (String.not_lt.1 h1)
        subst hk
        rw [lookup_cons_ite, lookup_cons_ite]
        by_cases h : x = k <;> simp [h]

@[simp] theorem get?_insert (m : Keyed α) (k : String) (a : α) (x : String) :
    (m.insert k a).get? x = if x = k then some a else m.get? x :=
  lookup_insertEntry k a m.entries x

theorem get?_foldl_insert (k : String) (es : List (String × α)) (h : (es.map Prod.fst).Nodup)
    (m : Keyed α) :
    (es.foldl (fun m e => m.insert e.1 e.2) m).get? k = (es.lookup k).or (m.get? k) := by
  induction es generalizing m with
  | nil => simp
  | cons e es ih =>
    obtain ⟨k', a'⟩ := e
    simp only [List.map_cons, List.nodup_cons] at h
    rw [List.foldl_cons, ih h.2, get?_insert, lookup_cons_ite]
    by_cases hk : k = k'
    · subst hk
      -- the key does not come again, so what was just put in stays
      have hnone : es.lookup k = none := by
        refine Option.eq_none_iff_forall_ne_some.2 fun a ha => h.1 ?_
        exact List.mem_map.2 ⟨_, mem_of_lookup_eq_some ha, rfl⟩
      simp [hnone]
    · simp [hk]

/-- Where both maps have a key the second wins. -/
@[simp] theorem get?_override (a b : Keyed α) (k : String) :
    (a.override b).get? k = (b.get? k).or (a.get? k) :=
  get?_foldl_insert k b.entries b.nodup_keys a

theorem override_assoc (a b c : Keyed α) :
    (a.override b).override c = a.override (b.override c) := by
  refine ext_get? fun k => ?_
  simp only [get?_override, Option.or_assoc]

/-! ### Replacing values -/

theorem lookup_map (f : String → α → β) (es : List (String × α)) (k : String) :
    (es.map fun e => (e.1, f e.1 e.2)).lookup k = (es.lookup k).map (f k) := by
  induction es with
  | nil => rfl
  | cons e es ih =>
    obtain ⟨k', a'⟩ := e
    rw [List.map_cons, lookup_cons_ite, lookup_cons_ite, ih]
    by_cases h : k = k' <;> simp [h]

@[simp] theorem get?_mapWithKey (f : String → α → β) (m : Keyed α) (k : String) :
    (m.mapWithKey f).get? k = (m.get? k).map (f k) :=
  lookup_map f m.entries k

@[simp] theorem get?_map (f : α → β) (m : Keyed α) (k : String) :
    (m.map f).get? k = (m.get? k).map f :=
  get?_mapWithKey _ m k

@[simp] theorem keys_mapWithKey (f : String → α → β) (m : Keyed α) : (m.mapWithKey f).keys = m.keys := by
  simp [keys, mapWithKey, Function.comp_def]

@[simp] theorem keys_map (f : α → β) (m : Keyed α) : (m.map f).keys = m.keys :=
  keys_mapWithKey _ m

theorem values_map (f : α → β) (m : Keyed α) : (m.map f).values = m.values.map f := by
  simp [values, map, mapWithKey, Function.comp_def]

theorem map_id (m : Keyed α) : m.map id = m := by
  refine ext_get? fun k => ?_
  rw [get?_map, Option.map_id, id]

/-! ### Traversal -/

/-- The entries after a traversal are those before it with the values that `f` gave. -/
theorem traverseEntries_forall₂ {f : String → α → Except ε β} {es : List (String × α)}
    {r : { r : List (String × β) // r.map Prod.fst = es.map Prod.fst }} (h : traverseEntries f es = .ok r) :
    List.Forall₂ (fun e e' => e'.1 = e.1 ∧ f e.1 e.2 = .ok e'.2) es r.1 := by
  induction es with
  | nil =>
    obtain ⟨r, hr⟩ := r
    obtain rfl : r = [] := by simpa using hr
    exact .nil
  | cons e es ih =>
    obtain ⟨k, a⟩ := e
    unfold traverseEntries at h
    split at h
    · cases h
    · rename_i b hb
      split at h
      · cases h
      · rename_i r' h' hr'
        cases h
        exact .cons ⟨rfl, hb⟩ (ih hr')

theorem traverse_forall₂ {f : String → α → Except ε β} {m : Keyed α} {r : Keyed β}
    (h : m.traverse f = .ok r) :
    List.Forall₂ (fun e e' => e'.1 = e.1 ∧ f e.1 e.2 = .ok e'.2) m.entries r.entries := by
  unfold traverse at h
  split at h
  · cases h
  · rename_i es hes he
    cases h
    exact traverseEntries_forall₂ he

theorem keys_of_traverse {f : String → α → Except ε β} {m : Keyed α} {r : Keyed β}
    (h : m.traverse f = .ok r) : r.keys = m.keys := by
  have hall := traverse_forall₂ h
  unfold keys
  generalize m.entries = es, r.entries = rs at hall
  induction hall with
  | nil => rfl
  | cons hab _ ih => simp [hab.1, ih]

theorem lookup_of_forall₂ {f : String → α → Except ε β} {es : List (String × α)} {rs : List (String × β)}
    (h : List.Forall₂ (fun e e' => e'.1 = e.1 ∧ f e.1 e.2 = .ok e'.2) es rs) (k : String) (b : β) :
    rs.lookup k = some b ↔ ∃ a, es.lookup k = some a ∧ f k a = .ok b := by
  induction h with
  | nil => simp
  | @cons e e' es rs hab _ ih =>
    obtain ⟨k₁, a₁⟩ := e
    obtain ⟨k₂, b₂⟩ := e'
    obtain ⟨rfl, hf⟩ := hab
    rw [lookup_cons_ite, lookup_cons_ite]
    by_cases hk : k = k₂
    · subst hk
      simp [hf]
    · simp [hk, ih]

/-- After a traversal the value at a key is what `f` made of the value before. -/
theorem get?_of_traverse {f : String → α → Except ε β} {m : Keyed α} {r : Keyed β}
    (h : m.traverse f = .ok r) (k : String) (b : β) :
    r.get? k = some b ↔ ∃ a, m.get? k = some a ∧ f k a = .ok b :=
  lookup_of_forall₂ (traverse_forall₂ h) k b

theorem exists_of_traverse {f : String → α → Except ε β} {m : Keyed α} {r : Keyed β} (h : m.traverse f = .ok r)
    {key : String} {a : α} (ha : m.get? key = some a) : ∃ b, r.get? key = some b ∧ f key a = .ok b := by
  have hkey : key ∈ r.keys := by
    rw [keys_of_traverse h]
    exact mem_keys.2 ⟨a, ha⟩
  obtain ⟨b, hb⟩ := mem_keys.1 hkey
  obtain ⟨a', ha', hf⟩ := (get?_of_traverse h key b).1 hb
  obtain rfl : a = a' := Option.some.inj (ha.symm.trans ha')
  exact ⟨b, hb, hf⟩

end Rollout.Keyed
