/-! Maps with text keys, held as entries in strictly ascending order of the keys. The order is by code
point. Two maps with the same entries are equal. -/

namespace Rollout

structure Keyed (α : Type) where
  entries : List (String × α)
  ascending : (entries.map Prod.fst).Pairwise (· < ·)
deriving DecidableEq

namespace Keyed

variable {α β ε : Type}

def empty : Keyed α := ⟨[], by simp⟩

instance : EmptyCollection (Keyed α) := ⟨empty⟩

instance : Inhabited (Keyed α) := ⟨empty⟩

def insertEntry (k : String) (a : α) : List (String × α) → List (String × α)
  | [] => [(k, a)]
  | (k', a') :: es =>
    if k < k' then (k, a) :: (k', a') :: es
    else if k' < k then (k', a') :: insertEntry k a es
    else (k, a) :: es

theorem mem_keys_insertEntry {k x : String} {a : α} {es : List (String × α)}
    (h : x ∈ (insertEntry k a es).map Prod.fst) : x = k ∨ x ∈ es.map Prod.fst := by
  induction es with
  | nil => simpa [insertEntry] using h
  | cons e es ih =>
    obtain ⟨k', a'⟩ := e
    unfold insertEntry at h
    split at h
    · simpa using h
    · split at h
      · simp only [List.map_cons, List.mem_cons] at h ⊢
        rcases h with h | h
        · exact Or.inr (Or.inl h)
        · exact (ih h).imp id Or.inr
      · simp only [List.map_cons, List.mem_cons] at h ⊢
        exact h.imp id Or.inr

theorem insertEntry_ascending (k : String) (a : α) {es : List (String × α)}
    (h : (es.map Prod.fst).Pairwise (· < ·)) :
    ((insertEntry k a es).map Prod.fst).Pairwise (· < ·) := by
  induction es with
  | nil => simp [insertEntry]
  | cons e es ih =>
    obtain ⟨k', a'⟩ := e
    simp only [List.map_cons, List.pairwise_cons] at h
    unfold insertEntry
    split
    · rename_i hlt
      simp only [List.map_cons, List.pairwise_cons, List.mem_cons]
      refine ⟨?_, h⟩
      rintro x (rfl | hx)
      · exact hlt
      · exact String.lt_trans hlt (h.1 x hx)
    · split
      · rename_i hlt
        simp only [List.map_cons, List.pairwise_cons]
        refine ⟨fun x hx => ?_, ih h.2⟩
        rcases mem_keys_insertEntry hx with rfl | hx
        · exact hlt
        · exact h.1 x hx
      · rename_i h1 h2
        have : k = k' := String.le_antisymm (String.not_lt.1 h2) (String.not_lt.1 h1)
        subst this
        simpa using h

def insert (m : Keyed α) (k : String) (a : α) : Keyed α :=
  ⟨insertEntry k a m.entries, insertEntry_ascending k a m.ascending⟩

/-- Later entries win. -/
def ofList (es : List (String × α)) : Keyed α :=
  es.foldl (fun m e => m.insert e.1 e.2) empty

def get? (m : Keyed α) (k : String) : Option α :=
  m.entries.lookup k

def contains (m : Keyed α) (k : String) : Bool :=
  (m.get? k).isSome

def keys (m : Keyed α) : List String := m.entries.map Prod.fst

def values (m : Keyed α) : List α := m.entries.map Prod.snd

def size (m : Keyed α) : Nat := m.entries.length

def isEmpty (m : Keyed α) : Bool := m.entries.isEmpty

/-- Every entry of `b` is put into `a`, so `b` wins where both have a key. -/
def override (a b : Keyed α) : Keyed α :=
  b.entries.foldl (fun m e => m.insert e.1 e.2) a

/-- The keys that both maps have, ascending. -/
def sharedKeys (a b : Keyed α) : List String :=
  b.keys.filter a.contains

def mapWithKey (f : String → α → β) (m : Keyed α) : Keyed β :=
  ⟨m.entries.map fun e => (e.1, f e.1 e.2), by
    simpa [Function.comp_def] using m.ascending⟩

def map (f : α → β) (m : Keyed α) : Keyed β :=
  m.mapWithKey fun _ a => f a

/-- Runs `f` on the entries in order; the first failure is the answer. -/
def traverseEntries (f : String → α → Except ε β) :
    (es : List (String × α)) → Except ε { r : List (String × β) // r.map Prod.fst = es.map Prod.fst }
  | [] => .ok ⟨[], rfl⟩
  | (k, a) :: es =>
    match f k a with
    | .error e => .error e
    | .ok b =>
      match traverseEntries f es with
      | .error e => .error e
      | .ok ⟨r, h⟩ => .ok ⟨(k, b) :: r, by simp [h]⟩

def traverse (f : String → α → Except ε β) (m : Keyed α) : Except ε (Keyed β) :=
  match traverseEntries f m.entries with
  | .error e => .error e
  | .ok ⟨r, h⟩ => .ok ⟨r, h ▸ m.ascending⟩

end Keyed

end Rollout
