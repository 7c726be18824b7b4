import Rollout.Text.Blank
import Mathlib.Data.List.Forall2
import Mathlib.Data.List.TakeWhile

/-! Cutting a text. A run of characters of one kind ends where another kind begins; trimming leaves what stands between
the white space at the ends; and a text falls into pieces at its separators, the same pieces whether it is cut whole
or in parts. Letters have the cases of ASCII, and numbers their decimal digits. -/

namespace Rollout.Text

variable {p sep : Char → Bool} {cs rest run t : List Char}

/-! ### Runs -/

/-- A run of characters of one kind ends where the next is of another. -/
theorem span_append (hcs : ∀ c ∈ cs, p c = true) (hrest : ∀ c, rest.head? = some c → ¬ p c = true) :
    (cs ++ rest).takeWhile p = cs ∧ (cs ++ rest).dropWhile p = rest := by
  rw [List.takeWhile_append_of_pos hcs, List.dropWhile_append_of_pos hcs]
  cases rest with
  | nil => simp
  | cons c rest =>
    have hc : ¬ p c = true := hrest c rfl
    rw [List.takeWhile_cons_of_neg hc, List.dropWhile_cons_of_neg hc]
    simp

theorem not_of_head?_dropWhile {c : Char} (h : (cs.dropWhile p).head? = some c) : ¬ p c = true := by
  have hstop := List.head?_dropWhile_not p cs
  rw [h] at hstop
  simpa using hstop

/-! ### Trimming -/

theorem not_isBlank_of_visible {c : Char} (hge : 33 ≤ c.toNat) (hle : c.toNat ≤ 126) : ¬ isBlank c = true := by
  simp only [isBlank, blankRanges, List.any_cons, List.any_nil, Bool.or_false, Bool.or_eq_true, Bool.and_eq_true,
    decide_eq_true_eq]
  omega

/-- The text `t` is `cs` without the white space around it. -/
structure Trims (cs t : List Char) : Prop where
  around : ∃ before after, cs = before ++ (t ++ after) ∧ (∀ c ∈ before, isBlank c) ∧ ∀ c ∈ after, isBlank c
  head : ∀ c, t.head? = some c → ¬ isBlank c
  last : ∀ c, t.getLast? = some c → ¬ isBlank c

theorem trims_trimList (cs : List Char) : Trims cs (trimList cs) := by
  have hfront := List.takeWhile_append_dropWhile (p := isBlank) (l := cs)
  generalize hmid : cs.dropWhile isBlank = mid at hfront
  have hback := congrArg List.reverse (List.takeWhile_append_dropWhile (p := isBlank) (l := mid.reverse))
  rw [List.reverse_append, List.reverse_reverse] at hback
  have htrim : trimList cs = (mid.reverse.dropWhile isBlank).reverse := by rw [trimList, hmid]
  refine ⟨⟨cs.takeWhile isBlank, (mid.reverse.takeWhile isBlank).reverse, ?_, ?_, ?_⟩, ?_, ?_⟩
  · rw [htrim, hback, hfront]
  · exact fun c hc => List.mem_takeWhile_imp hc
  · exact fun c hc => List.mem_takeWhile_imp (List.mem_reverse.1 hc)
  · intro c hc
    have hmidhead : (cs.dropWhile isBlank).head? = some c := by
      rw [hmid, ← hback, ← htrim, List.head?_append, hc, Option.some_or]
    exact not_of_head?_dropWhile hmidhead
  · intro c hc
    rw [htrim, List.getLast?_reverse] at hc
    exact not_of_head?_dropWhile hc

theorem Trims.trimList_eq (h : Trims cs t) : trimList cs = t := by
  obtain ⟨⟨before, after, rfl, hbefore, hafter⟩, hhead, hlast⟩ := h
  rw [trimList, List.dropWhile_append_of_pos hbefore]
  by_cases ht : t = []
  · -- all of it is white space
    subst ht
    rw [List.nil_append, List.dropWhile_eq_nil_iff.2 hafter]
    rfl
  · have hfront : (t ++ after).dropWhile isBlank = t ++ after := by
      obtain ⟨c, t, rfl⟩ := List.exists_cons_of_ne_nil ht
      exact List.dropWhile_cons_of_neg (hhead c rfl)
    have hback : (after.reverse ++ t.reverse).dropWhile isBlank = t.reverse := by
      refine (span_append (fun c hc => hafter c (List.mem_reverse.1 hc)) fun c hc => ?_).2
      rw [List.head?_reverse] at hc
      exact hlast c hc
    rw [hfront, List.reverse_append, hback, List.reverse_reverse]

theorem Trims.self (h : Trims cs t) : Trims t t :=
  ⟨⟨[], [], by simp, by simp, by simp⟩, h.head, h.last⟩

theorem trims_iff : Trims cs t ↔ trimList cs = t :=
  ⟨Trims.trimList_eq, fun h => h ▸ trims_trimList cs⟩

theorem trimList_eq_nil : trimList cs = [] ↔ ∀ c ∈ cs, isBlank c := by
  rw [← trims_iff]
  constructor
  · rintro ⟨⟨before, after, rfl, hbefore, hafter⟩, -, -⟩ c hc
    rcases List.mem_append.1 hc with hc | hc
    · exact hbefore c hc
    · exact hafter c hc
  · intro h
    exact ⟨⟨cs, [], by simp, h, by simp⟩, by simp, by simp⟩

theorem trimList_of_not_blank (h : ∀ c ∈ cs, ¬ isBlank c) : trimList cs = cs := by
  refine Trims.trimList_eq ⟨⟨[], [], by simp, by simp, by simp⟩, fun c hc => ?_, fun c hc => ?_⟩
  · exact h c (List.mem_of_mem_head? hc)
  · exact h c (List.mem_of_getLast? hc)

/-! ### Pieces -/

theorem pieces_ne_nil (sep : Char → Bool) (cs : List Char) : pieces sep cs ≠ [] := by
  cases cs with
  | nil => simp [pieces]
  | cons c cs =>
    unfold pieces
    split
    · simp
    · split <;> simp

/-- A text is cut at each separator on its own. -/
theorem pieces_append {c : Char} (hc : sep c = true) (cs ds : List Char) :
    pieces sep (cs ++ c :: ds) = pieces sep cs ++ pieces sep ds := by
  induction cs with
  | nil => simp [pieces, hc]
  | cons d cs ih =>
    obtain ⟨p, ps, hps⟩ := List.exists_cons_of_ne_nil (pieces_ne_nil sep cs)
    rw [List.cons_append, pieces, pieces, ih, hps]
    split <;> rfl

theorem pieces_of_not_sep (h : ∀ c ∈ cs, ¬ sep c = true) : pieces sep cs = [cs] := by
  induction cs with
  | nil => rfl
  | cons c cs ih =>
    rw [pieces, if_neg (h c List.mem_cons_self), ih fun d hd => h d (List.mem_cons_of_mem c hd)]

theorem flatten_pieces (sep : Char → Bool) (cs : List Char) :
    (pieces sep cs).flatten = cs.filter fun c => !sep c := by
  induction cs with
  | nil => rfl
  | cons c cs ih =>
    obtain ⟨p, ps, hps⟩ := List.exists_cons_of_ne_nil (pieces_ne_nil sep cs)
    rw [hps] at ih
    rw [pieces, hps, List.filter_cons, ← ih]
    by_cases hc : sep c = true <;> simp [hc]

/-- A stretch of `cs` without a separator that has one, or an end of the text, on either side. -/
structure Run (sep : Char → Bool) (cs run : List Char) : Prop where
  solid : ∀ c ∈ run, ¬ sep c = true
  within : ∃ before after, cs = before ++ (run ++ after) ∧ (∀ c, before.getLast? = some c → sep c = true) ∧
    ∀ c, after.head? = some c → sep c = true

theorem Run.of_append {c : Char} (hc : sep c = true) (h : Run sep cs run) (ds : List Char) :
    Run sep (ds ++ c :: cs) run := by
  obtain ⟨hsolid, before, after, rfl, hbefore, hafter⟩ := h
  refine ⟨hsolid, ds ++ c :: before, after, by simp, fun d hd => ?_, hafter⟩
  rw [List.getLast?_append_cons] at hd
  cases before with
  | nil =>
    cases hd
    exact hc
  | cons e before =>
    rw [List.getLast?_cons_cons] at hd
    exact hbefore d hd

/-- Reading on from a run, each piece is a run of the whole text. The run read so far is the state. -/
theorem run_of_mem_pieces (sofar : List Char) (hsofar : ∀ c ∈ sofar, ¬ sep c = true)
    (h : run ∈ pieces sep (sofar ++ cs)) : Run sep (sofar ++ cs) run := by
  induction cs generalizing sofar with
  | nil =>
    rw [List.append_nil, pieces_of_not_sep hsofar, List.mem_singleton] at h
    subst h
    exact ⟨hsofar, [], [], by simp, by simp, by simp⟩
  | cons c cs ih =>
    by_cases hc : sep c = true
    · rw [pieces_append hc, pieces_of_not_sep hsofar, List.singleton_append, List.mem_cons] at h
      rcases h with rfl | h
      · exact ⟨hsofar, [], c :: cs, rfl, by simp, fun d hd => Option.some.inj hd ▸ hc⟩
      · exact (ih [] (by simp) h).of_append hc sofar
    · rw [List.append_cons] at h ⊢
      exact ih (sofar ++ [c]) (List.forall_mem_append.2 ⟨hsofar, List.forall_mem_singleton.2 hc⟩) h

theorem Run.mem_pieces (h : Run sep cs run) : run ∈ pieces sep cs := by
  obtain ⟨hsolid, before, after, rfl, hbefore, hafter⟩ := h
  have htail : run ∈ pieces sep (run ++ after) := by
    cases after with
    | nil => simp [pieces_of_not_sep hsolid]
    | cons c after => simp [pieces_append (hafter c rfl), pieces_of_not_sep hsolid]
  rcases List.eq_nil_or_concat before with rfl | ⟨before, c, rfl⟩
  · exact htail
  · rw [List.concat_eq_append] at hbefore ⊢
    have hc : sep c = true := hbefore c (by simp)
    rw [List.append_assoc, List.singleton_append, pieces_append hc]
    exact List.mem_append_right _ htail

theorem mem_pieces_iff : run ∈ pieces sep cs ↔ Run sep cs run :=
  ⟨run_of_mem_pieces [] (by simp), Run.mem_pieces⟩

/-- The words stand in `cs` in this order, with separators between them, and any number of separators anywhere but
inside a word. -/
inductive Spread (sep : Char → Bool) : List (List Char) → List Char → Prop
  | nil : Spread sep [] []
  | gap {c : Char} {words : List (List Char)} {cs : List Char} (hc : sep c = true) (h : Spread sep words cs) :
    Spread sep words (c :: cs)
  | word {w : List Char} {words : List (List Char)} {cs : List Char} (hw : w ≠ []) (hsolid : ∀ c ∈ w, ¬ sep c = true)
    (hnext : ∀ c, cs.head? = some c → sep c = true) (h : Spread sep words cs) : Spread sep (w :: words) (w ++ cs)

theorem Spread.pieces_eq {words : List (List Char)} (h : Spread sep words cs) :
    (pieces sep cs).filter (· ≠ []) = words := by
  induction h with
  | nil => rfl
  | gap hc _ ih => rw [pieces, if_pos hc, List.filter_cons_of_neg (by simp), ih]
  | @word w words cs hw hsolid hnext _ ih =>
    cases cs with
    | nil =>
      rw [← ih]
      simp [pieces, pieces_of_not_sep hsolid, hw]
    | cons c cs =>
      have hc : sep c = true := hnext c rfl
      rw [← ih, pieces_append hc, pieces_of_not_sep hsolid]
      simp [pieces, hc, hw]

theorem exists_spread (sofar : List Char) (hsofar : ∀ c ∈ sofar, ¬ sep c = true) (cs : List Char) :
    ∃ words, Spread sep words (sofar ++ cs) := by
  induction cs generalizing sofar with
  | nil =>
    by_cases hne : sofar = []
    · subst hne
      exact ⟨[], .nil⟩
    · exact ⟨[sofar], .word hne hsofar (by simp) .nil⟩
  | cons c cs ih =>
    by_cases hc : sep c = true
    · obtain ⟨words, h⟩ := ih [] (by simp)
      by_cases hne : sofar = []
      · subst hne
        exact ⟨words, .gap hc h⟩
      · exact ⟨sofar :: words, .word hne hsofar (fun d hd => Option.some.inj hd ▸ hc) (.gap hc h)⟩
    · rw [List.append_cons]
      exact ih (sofar ++ [c]) (List.forall_mem_append.2 ⟨hsofar, List.forall_mem_singleton.2 hc⟩)

theorem spread_iff {words : List (List Char)} : Spread sep words cs ↔ (pieces sep cs).filter (· ≠ []) = words := by
  refine ⟨Spread.pieces_eq, ?_⟩
  rintro rfl
  obtain ⟨words, h⟩ : ∃ words, Spread sep words cs := exists_spread [] (by simp) cs
  rwa [h.pieces_eq]

/-! ### Tokens -/

theorem tokens_append {c : Char} (hc : sep c = true) {s a b : String} (hs : s.toList = a.toList ++ c :: b.toList) :
    tokens sep s = tokens sep a ++ tokens sep b := by
  simp only [tokens, hs, pieces_append hc, List.map_append, List.filter_append]

theorem tokens_eq_nil {s : String} : tokens sep s = [] ↔ ∀ c ∈ s.toList, sep c = true ∨ isBlank c = true := by
  have hpieces : tokens sep s = [] ↔ ∀ p ∈ pieces sep s.toList, ∀ c ∈ p, isBlank c = true := by
    simp only [tokens, List.filter_eq_nil_iff, List.forall_mem_map, decide_not, Bool.not_eq_true',
      decide_eq_false_iff_not, not_not, String.ofList_eq_empty_iff, trimList_eq_nil]
  have hflat : (∀ p ∈ pieces sep s.toList, ∀ c ∈ p, isBlank c = true) ↔
      ∀ c ∈ (pieces sep s.toList).flatten, isBlank c = true := by
    simp only [List.mem_flatten]
    grind
  rw [hpieces, hflat, flatten_pieces]
  simp only [List.mem_filter]
  grind

/-- A text without separators and white space is its own token. -/
theorem tokens_of_solid {s : String} (hne : s.toList ≠ []) (h : ∀ c ∈ s.toList, ¬ sep c = true ∧ ¬ isBlank c = true) :
    tokens sep s = [s] := by
  have hpieces : pieces sep s.toList = [s.toList] := pieces_of_not_sep fun c hc => (h c hc).1
  have htrim : trimList s.toList = s.toList := trimList_of_not_blank fun c hc => (h c hc).2
  rw [ne_eq, String.toList_eq_nil_iff] at hne
  simp [tokens, hpieces, htrim, hne]

/-- Where white space separates, there is nothing to trim. -/
theorem tokens_eq_pieces (hblank : ∀ c, isBlank c = true → sep c = true) (s : String) :
    (tokens sep s).map String.toList = (pieces sep s.toList).filter (· ≠ []) := by
  have htrim : (pieces sep s.toList).map (fun p => String.ofList (trimList p)) =
      (pieces sep s.toList).map String.ofList := by
    refine List.map_congr_left fun p hp => ?_
    rw [trimList_of_not_blank fun c hc hb => (mem_pieces_iff.1 hp).solid c hc (hblank c hb)]
  rw [tokens, htrim, List.filter_map, List.map_map]
  have hlist : (String.toList ∘ String.ofList) = id := funext fun cs => String.toList_ofList
  rw [hlist, List.map_id]
  refine List.filter_congr fun p _ => ?_
  simp [String.ofList_eq_empty_iff]

theorem mem_tokens_iff (hblank : ∀ c, isBlank c = true → sep c = true) {s t : String} :
    t ∈ tokens sep s ↔ t ≠ "" ∧ Run sep s.toList t.toList := by
  have hmem : t ∈ tokens sep s ↔ t.toList ∈ (tokens sep s).map String.toList :=
    (List.mem_map_of_injective fun a b => String.toList_inj.1).symm
  rw [hmem, tokens_eq_pieces hblank, List.mem_filter, mem_pieces_iff]
  simp [and_comm]

/-! ### Letter case -/

theorem toNat_toLower (c : Char) :
    c.toLower.toNat = if 65 ≤ c.toNat ∧ c.toNat ≤ 90 then c.toNat + 32 else c.toNat := by
  unfold Char.toLower
  split
  · rename_i h
    have h : 65 ≤ c.toNat ∧ c.toNat ≤ 90 := h
    have hadd : (c.val + 32).toNat = c.toNat + 32 := by
      rw [UInt32.toNat_add]
      change (c.toNat + 32) % 4294967296 = _
      omega
    rw [if_pos h]
    exact hadd
  · rename_i h
    exact (if_neg h).symm

theorem toNat_toUpper {l : Char} (hl : l.isLower = true) :
    97 ≤ l.toNat ∧ l.toNat ≤ 122 ∧ l.toUpper.toNat + 32 = l.toNat := by
  obtain ⟨hge, hle⟩ := Bool.and_eq_true_iff.1 hl
  have h : 'a'.val ≤ l.val ∧ l.val ≤ 'z'.val := ⟨of_decide_eq_true hge, of_decide_eq_true hle⟩
  have hge : 97 ≤ l.toNat := h.1
  have hle : l.toNat ≤ 122 := h.2
  refine ⟨hge, hle, ?_⟩
  unfold Char.toUpper
  rw [dif_pos h]
  change (l.val + ('A'.val - 'a'.val)).toNat + 32 = _
  -- the difference is negative, so the sum goes once around
  rw [UInt32.toNat_add]
  change (l.toNat + 4294967264) % 4294967296 + 32 = _
  omega

theorem toLower_eq_iff {c l : Char} (hl : l.isLower = true) : c.toLower = l ↔ c = l ∨ c = l.toUpper := by
  obtain ⟨hge, hle, hup⟩ := toNat_toUpper hl
  rw [← Char.toNat_inj, ← Char.toNat_inj, ← Char.toNat_inj, toNat_toLower]
  split <;> omega

/-- A text is some letters in any case when its letters are these or their capitals. -/
theorem map_toLower_eq_iff {letters : List Char} (h : ∀ l ∈ letters, l.isLower = true) :
    cs.map Char.toLower = letters ↔ List.Forall₂ (fun c l => c = l ∨ c = Char.toUpper l) cs letters := by
  induction letters generalizing cs with
  | nil => simp
  | cons l letters ih =>
    cases cs with
    | nil => simp
    | cons c cs =>
      rw [List.map_cons, List.cons.injEq, List.forall₂_cons, toLower_eq_iff (h l List.mem_cons_self),
        ih fun l hl => h l (List.mem_cons_of_mem _ hl)]

/-! ### Decimal numbers -/

theorem isDigit_of_mem_toDigits {n : Nat} {c : Char} (h : c ∈ Nat.toDigits 10 n) : c.isDigit :=
  Nat.isDigit_of_mem_toDigits (by decide) (by decide) h

theorem toList_toString_natCast (n : Nat) : (toString (n : Int)).toList = Nat.toDigits 10 n :=
  Nat.toList_repr

theorem toList_toString_neg {n : Int} (hn : ¬ 0 ≤ n) : (toString n).toList = '-' :: Nat.toDigits 10 (-n).toNat := by
  rw [Int.toString_eq_repr, Int.repr_eq_if, if_neg hn, String.toList_append, Nat.toList_repr]
  rfl

theorem toList_toString_ne_nil (n : Int) : (toString n).toList ≠ [] := by
  by_cases hn : 0 ≤ n
  · obtain ⟨k, rfl⟩ := Int.eq_ofNat_of_zero_le hn
    rw [toList_toString_natCast]
    exact Nat.toDigits_ne_nil
  · rw [toList_toString_neg hn]
    exact List.cons_ne_nil _ _

end Rollout.Text
