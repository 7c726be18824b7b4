import Rollout.Yaml.Decode
import Rollout.Proofs.Fault

/-! What reading a record keeps: a property that no field breaks is kept by all of them. -/

namespace Rollout.Yaml.Decode

variable {α σ : Type} {P : σ → Prop}

/-- Reading this field never breaks `P`. -/
def Field.Keeps (P : σ → Prop) (f : Field σ) : Prop :=
  ∀ n s s', P s → f.read n s = .ok s' → P s'

theorem field_keeps {name : String} {read : Decoder α} {set : σ → α → σ} (h : ∀ s v, P s → P (set s v)) :
    (field name read set).Keeps P := by
  intro n s s' hs hread
  change (read n).map (set s) = .ok s' at hread
  cases hn : read n with
  | error e =>
    rw [hn] at hread
    cases hread
  | ok v =>
    rw [hn] at hread
    cases hread
    exact h s v hs

theorem recordFields_keeps {fields : List (Field σ)} (h : ∀ f ∈ fields, f.Keeps P) {es : List (Node × Node)} :
    ∀ {seen : List String} {s s' : σ}, P s → recordFields fields seen s es = .ok s' → P s' := by
  induction es with
  | nil =>
    intro seen s s' hs hr
    cases hr
    exact hs
  | cons e es ih =>
    intro seen s s' hs hr
    obtain ⟨k, v⟩ := e
    rw [recordFields] at hr
    obtain ⟨key, -, hr⟩ := bind_eq_ok.1 hr
    split at hr
    · cases hr
    rename_i f hf
    split at hr
    · cases hr
    obtain ⟨s₁, hs₁, hr⟩ := bind_eq_ok.1 hr
    exact ih (h f (List.mem_of_find?_eq_some hf) v s s₁ hs hs₁) hr

theorem record_keeps {fields : List (Field σ)} (h : ∀ f ∈ fields, f.Keeps P) {init s : σ} (hinit : P init)
    {n : Node} (hn : record fields init n = .ok s) : P s := by
  unfold record at hn
  split at hn
  · exact recordFields_keeps h hinit hn
  · split at hn
    · cases hn
      exact hinit
    · cases hn

end Rollout.Yaml.Decode
