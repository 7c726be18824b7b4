import Rollout.Proofs.Text
import Rollout.Yaml.Style

/-! What plain data is when it is read back: a number in its usual spelling is that number, and the style of a text
is one in which it is read as text. -/

namespace Rollout.Yaml

/-! ### Numbers -/

theorem digitValue?_of_isDigit {c : Char} (h : c.isDigit) : digitValue? 10 c = some (c.toNat - 48) := by
  simp only [Char.isDigit, Bool.and_eq_true, decide_eq_true_eq] at h
  have hle : c.toNat ≤ 57 := h.2
  have hhex : hexValue? c = some (c.toNat - 48) := if_pos h
  have hlt : c.toNat - 48 < 10 := by omega
  simp [digitValue?, hhex, hlt]

theorem foldl_digits {cs : List Char} (h : ∀ c ∈ cs, c.isDigit) (start : Nat) :
    cs.foldl (fun n c => n.bind fun n => (digitValue? 10 c).map fun d => 10 * n + d) (some start) =
      some (Nat.ofDigitChars 10 cs start) := by
  induction cs generalizing start with
  | nil => simp
  | cons c cs ih =>
    have hc : digitValue? 10 c = some (c.toNat - 48) := digitValue?_of_isDigit (h c List.mem_cons_self)
    rw [List.foldl_cons, Nat.ofDigitChars_cons, ← ih fun d hd => h d (List.mem_cons_of_mem c hd)]
    simp [hc]

theorem ne_of_isDigit {c d : Char} (h : c.isDigit) (hd : d.isDigit = false) : c ≠ d := by
  rintro rfl
  rw [hd] at h
  cases h

/-- A number is spelled without a zero in front, unless it is zero. -/
theorem toDigits_cons (n : Nat) :
    ∃ c cs, Nat.toDigits 10 n = c :: cs ∧ c.isDigit ∧ (c = '0' → cs = []) := by
  induction n using Nat.base_induction 10 (by decide) with
  | single m hm =>
    have hcs : Nat.toDigits 10 m = [m.digitChar] := Nat.toDigits_of_lt_base hm
    exact ⟨m.digitChar, [], hcs, Text.isDigit_of_mem_toDigits (hcs ▸ List.mem_cons_self), fun _ => rfl⟩
  | digit m k hk hm ih =>
    obtain ⟨c, cs, hcs, hd, hc⟩ := ih
    refine ⟨c, cs ++ Nat.toDigits 10 k, ?_, hd, fun h => ?_⟩
    · rw [← Nat.toDigits_append_toDigits (by decide) hm hk, hcs, List.cons_append]
    · -- a leading zero would make the higher digits those of zero
      rw [hc h, h] at hcs
      have hz : m = 0 := by
        have := congrArg (fun ds => Nat.ofDigitChars 10 ds 0) hcs
        simpa [Nat.ofDigitChars_cons] using this
      omega

theorem isPaddedNumber_toDigits (n : Nat) : isPaddedNumber (Nat.toDigits 10 n) = false := by
  obtain ⟨c, cs, hcs, hd, hzero⟩ := toDigits_cons n
  have hsign : dropSign (c :: cs) = c :: cs := by
    unfold dropSign
    split
    · rename_i h
      exact absurd (List.cons.inj h).1 (ne_of_isDigit hd (by decide))
    · rename_i h
      exact absurd (List.cons.inj h).1 (ne_of_isDigit hd (by decide))
    · rfl
  rw [hcs, isPaddedNumber, hsign]
  split
  · rename_i h
    obtain ⟨rfl, rfl⟩ := List.cons.inj h
    cases hzero rfl
  · rfl

theorem magnitude?_toDigits (n : Nat) : magnitude? (Nat.toDigits 10 n) = some n := by
  obtain ⟨c, cs, hcs, -, hzero⟩ := toDigits_cons n
  have hdigits : digits? 10 (Nat.toDigits 10 n) = some n := by
    rw [digits?, if_neg Nat.toDigits_ne_nil, foldl_digits fun c hc => Text.isDigit_of_mem_toDigits hc,
      Nat.ofDigitChars_ten_toDigits]
  -- the other bases need a letter after a zero
  have hbase : ∀ d ds, Nat.toDigits 10 n ≠ '0' :: d :: ds := by
    intro d ds h
    obtain ⟨rfl, rfl⟩ := List.cons.inj (hcs.symm.trans h)
    cases hzero rfl
  unfold magnitude?
  split
  · exact absurd ‹_› (hbase _ _)
  · exact absurd ‹_› (hbase _ _)
  · exact absurd ‹_› (hbase _ _)
  · rw [isPaddedNumber_toDigits]
    exact hdigits

theorem natural?_toDigits (n : Nat) : natural? (Nat.toDigits 10 n) = some n := by
  obtain ⟨c, cs, hcs, hd, -⟩ := toDigits_cons n
  unfold natural?
  split
  · rename_i h
    exact absurd (List.cons.inj (hcs.symm.trans h)).1 (ne_of_isDigit hd (by decide))
  · exact magnitude?_toDigits n

theorem intKind?_toDigits {n : Nat} (h : n < Nat.pow 2 64) : intKind? (Nat.toDigits 10 n) = some (.int n) := by
  obtain ⟨c, cs, hcs, hd, -⟩ := toDigits_cons n
  unfold intKind?
  split
  · rename_i h
    exact absurd (List.cons.inj (hcs.symm.trans h)).1 (ne_of_isDigit hd (by decide))
  · rw [natural?_toDigits, Option.bind_some, if_pos h]

theorem intKind?_toString (n : Int64) : intKind? (toString n.toInt).toList = some (.int n.toInt) := by
  have hmin := n.le_toInt
  have hmax := n.toInt_lt
  by_cases hn : 0 ≤ n.toInt
  · have hlt : n.toInt.toNat < Nat.pow 2 64 := by
      change n.toInt.toNat < 18446744073709551616
      omega
    have hnat : (n.toInt.toNat : Int) = n.toInt := Int.toNat_of_nonneg hn
    have hkind := intKind?_toDigits hlt
    rwa [← Text.toList_toString_natCast, hnat] at hkind
  · have hle : (-n.toInt).toNat ≤ Nat.pow 2 63 := by
      change (-n.toInt).toNat ≤ 9223372036854775808
      omega
    have hneg : -((-n.toInt).toNat : Int) = n.toInt := by omega
    rw [Text.toList_toString_neg hn, intKind?, magnitude?_toDigits, Option.bind_some, if_pos hle, hneg]

/-! ### Plain scalars -/

/-- No word for null or for a truth value is a number. -/
theorem plainKind_of_intKind? {s : String} {k : Kind} (h : intKind? s.toList = some k) : plainKind s = k := by
  have hne : ∀ word : String, intKind? word.toList = none → s ≠ word := by
    rintro word hw rfl
    rw [hw] at h
    cases h
  have hnull : ¬ (s = "" ∨ isNullWord s) := by
    simp [isNullWord, hne "" rfl, hne "~" rfl, hne "null" rfl, hne "Null" rfl, hne "NULL" rfl]
  have hbool : boolWord? s = none := by
    simp [boolWord?, hne "true" rfl, hne "True" rfl, hne "TRUE" rfl, hne "false" rfl, hne "False" rfl,
      hne "FALSE" rfl]
  rw [plainKind, if_neg hnull, hbool, h]

theorem scalarKind?_of_intKind? {s : String} {k : Kind} (h : intKind? s.toList = some k) :
    scalarKind? none .plain s = some k :=
  congrArg some (plainKind_of_intKind? h)

theorem scalarKind?_natCast {n : Nat} (h : n < Nat.pow 2 64) :
    scalarKind? none .plain (toString (n : Int)) = some (.int n) :=
  scalarKind?_of_intKind? ((congrArg intKind? (Text.toList_toString_natCast n)).trans (intKind?_toDigits h))

theorem scalarKind?_toInt (n : Int64) : scalarKind? none .plain (toString n.toInt) = some (.int n.toInt) :=
  scalarKind?_of_intKind? (intKind?_toString n)

/-- The style of a text is plain only if it is read as text then. -/
theorem plainKind_of_styleOf {s : String} (h : styleOf s = .plain) : plainKind s = .text := by
  have hquote : ∀ cs, quoteStyle cs ≠ .plain := by
    intro cs
    unfold quoteStyle
    split <;> decide
  unfold styleOf at h
  simp only at h
  split at h
  · split at h <;> cases h
  · split at h
    · exact absurd h (hquote _)
    · rename_i hamb
      unfold isAmbiguous at hamb
      simp only [Bool.or_eq_true, bne_iff_ne, not_or] at hamb
      exact Decidable.not_not.1 hamb.1

@[simp] theorem scalarKind?_styleOf (s : String) : scalarKind? none (styleOf s) s = some .text := by
  unfold scalarKind?
  simp only
  split
  · rename_i h
    rw [plainKind_of_styleOf h]
  · rfl

end Rollout.Yaml
