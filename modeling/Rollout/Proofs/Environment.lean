import Rollout.Environment
import Rollout.Proofs.Text

/-! A text has one reading as literals and references. Each piece is as long as it can be where it stands, which the
characters after it decide; so a text falls into pieces in one way, whatever the references stand for, and expanding
it puts their values side by side. -/

namespace Rollout

namespace Expand

section Pieces

def Piece.source : Piece → List Char
  | literal cs => cs
  | dollar => ['$']
  | bare name => '$' :: name
  | braced name => '$' :: '\x7b' :: (name ++ ['\x7d'])

/-- A text begins with the piece, given what follows it there. A lone dollar sign has no name after it, and no braces
that are closed anywhere. -/
def Piece.Fits : Piece → List Char → Prop
  | literal cs, rest => cs ≠ [] ∧ '$' ∉ cs ∧ ∀ c, rest.head? = some c → c = '$'
  | dollar, [] => True
  | dollar, c :: rest => ¬ Text.isNameChar c = true ∧ (c = '\x7b' → '\x7d' ∉ rest)
  | bare name, rest =>
    name ≠ [] ∧ (∀ c ∈ name, Text.isNameChar c = true) ∧ ∀ c, rest.head? = some c → ¬ Text.isNameChar c = true
  | braced name, _ => '\x7d' ∉ name

/-- The text falls into these pieces, read from the left. -/
inductive Splits : List Piece → List Char → Prop
  | nil : Splits [] []
  | cons {p : Piece} {ps : List Piece} {rest : List Char} (hp : p.Fits rest) (h : Splits ps rest) :
      Splits (p :: ps) (p.source ++ rest)

def Piece.name? : Piece → Option String
  | literal _ | dollar => none
  | bare name | braced name => some (String.ofList name)

end Pieces

section Scanning

variable {cs name rest : List Char} {p : Piece} {ps : List Piece}

theorem untilBrace?_eq_none : untilBrace? cs = none ↔ '\x7d' ∉ cs := by
  induction cs with
  | nil => simp [untilBrace?]
  | cons c cs ih =>
    unfold untilBrace?
    split
    · simp [*]
    · rename_i hc
      simp [ih, Ne.symm hc]

theorem untilBrace?_append (h : '\x7d' ∉ name) : untilBrace? (name ++ '\x7d' :: rest) = some (name, rest) := by
  induction name with
  | nil => rw [List.nil_append, untilBrace?, if_pos rfl]
  | cons c name ih =>
    simp only [List.mem_cons, not_or] at h
    rw [List.cons_append, untilBrace?, if_neg (Ne.symm h.1), ih h.2, Option.map_some]

theorem of_untilBrace?_eq_some (h : untilBrace? cs = some (name, rest)) :
    cs = name ++ '\x7d' :: rest ∧ '\x7d' ∉ name := by
  induction cs generalizing name with
  | nil => simp [untilBrace?] at h
  | cons c cs ih =>
    rw [untilBrace?] at h
    split at h
    · rename_i hc
      cases h
      simp [hc]
    · rename_i hc
      obtain ⟨r, hr, he⟩ := Option.map_eq_some_iff.1 h
      cases he
      obtain ⟨hcs, hname⟩ := ih hr
      simp [hcs, hname, Ne.symm hc]

theorem not_isNameChar_brace : ¬ Text.isNameChar '\x7b' = true := by decide

/-- The pieces of a text are the one that it begins with and those of the rest. -/
theorem pieces_append (h : p.Fits rest) : pieces (p.source ++ rest) = p :: pieces rest := by
  cases p with
  | literal cs =>
    obtain ⟨hne, hno, hrest⟩ := h
    obtain ⟨c, cs, rfl⟩ := List.exists_cons_of_ne_nil hne
    simp only [List.mem_cons, not_or] at hno
    have hcs : ∀ d ∈ cs, decide (d ≠ '$') = true := fun d hd => decide_eq_true fun he => hno.2 (he ▸ hd)
    have hstop : ∀ d, rest.head? = some d → ¬ decide (d ≠ '$') = true := by simpa using hrest
    obtain ⟨htake, hdrop⟩ := Text.span_append hcs hstop
    rw [Piece.source, List.cons_append, pieces.eq_def]
    simp only [if_neg (Ne.symm hno.1), htake, hdrop]
  | dollar =>
    rw [Piece.source, List.singleton_append, pieces.eq_def]
    cases rest with
    | nil => simp [pieces]
    | cons d ds =>
      obtain ⟨hname, hbrace⟩ := h
      by_cases hd : d = '\x7b'
      · have hnone := untilBrace?_eq_none.2 (hbrace hd)
        simp only [if_pos, if_pos hd]
        split
        · simp_all
        · rfl
      · simp only [if_pos, if_neg hd, if_neg hname]
  | bare name =>
    obtain ⟨hne, hname, hrest⟩ := h
    obtain ⟨d, ds, rfl⟩ := List.exists_cons_of_ne_nil hne
    have hd : Text.isNameChar d = true := hname d (List.mem_cons_self ..)
    have hbrace : d ≠ '\x7b' := by
      rintro rfl
      exact not_isNameChar_brace hd
    obtain ⟨htake, hdrop⟩ := Text.span_append (fun c hc => hname c (List.mem_cons_of_mem d hc)) hrest
    rw [Piece.source, List.cons_append, List.cons_append, pieces.eq_def]
    simp only [if_pos, if_neg hbrace, if_pos hd, htake, hdrop]
  | braced name =>
    have hsome : untilBrace? (name ++ '\x7d' :: rest) = some (name, rest) := untilBrace?_append h
    rw [Piece.source, List.cons_append, List.cons_append, List.append_assoc, List.singleton_append, pieces.eq_def]
    simp only [if_pos]
    split
    · rename_i heq
      rw [hsome] at heq
      cases heq
      rfl
    · simp_all

/-- What a dollar sign stands for is settled by the characters after it. -/
theorem exists_fits_dollar (cs : List Char) :
    ∃ (p : Piece) (rest : List Char), '$' :: cs = p.source ++ rest ∧ p.Fits rest := by
  match cs with
  | [] => exact ⟨.dollar, [], rfl, trivial⟩
  | d :: ds =>
    by_cases hname : Text.isNameChar d = true
    · refine ⟨.bare ((d :: ds).takeWhile Text.isNameChar), (d :: ds).dropWhile Text.isNameChar, ?_, ?_, ?_, ?_⟩
      · rw [Piece.source, List.cons_append, List.takeWhile_append_dropWhile]
      · simp [hname]
      · exact fun _ => List.mem_takeWhile_imp
      · exact fun _ => Text.not_of_head?_dropWhile
    · by_cases hd : d = '\x7b'
      · cases hb : untilBrace? ds with
        | none => exact ⟨.dollar, d :: ds, rfl, hname, fun _ => untilBrace?_eq_none.1 hb⟩
        | some r =>
          obtain ⟨hds, hclosed⟩ := of_untilBrace?_eq_some hb
          exact ⟨.braced r.1, r.2, by simp [Piece.source, hd, hds], hclosed⟩
      · exact ⟨.dollar, d :: ds, rfl, hname, fun h => absurd h hd⟩

theorem exists_fits (c : Char) (cs : List Char) :
    ∃ (p : Piece) (rest : List Char), c :: cs = p.source ++ rest ∧ p.Fits rest := by
  by_cases hc : c = '$'
  · exact hc ▸ exists_fits_dollar cs
  · refine ⟨.literal ((c :: cs).takeWhile (· ≠ '$')), (c :: cs).dropWhile (· ≠ '$'), ?_, ?_, ?_, ?_⟩
    · rw [Piece.source, List.takeWhile_append_dropWhile]
    · simp [hc]
    · intro hmem
      simpa using List.mem_takeWhile_imp hmem
    · intro d hd
      simpa using Text.not_of_head?_dropWhile hd

theorem Piece.Fits.length_source_pos (h : p.Fits rest) : 0 < p.source.length := by
  cases p with
  | literal cs => exact List.length_pos_iff.2 h.1
  | dollar | bare name | braced name => simp [source]

theorem splits_pieces (cs : List Char) : Splits (pieces cs) cs := by
  -- on the length, since the rest after a piece may begin anywhere
  induction hn : cs.length using Nat.strongRecOn generalizing cs with
  | ind n ih =>
    cases cs with
    | nil =>
      rw [pieces]
      exact .nil
    | cons c cs =>
      obtain ⟨p, rest, hcs, hp⟩ := exists_fits c cs
      have hpos := hp.length_source_pos
      rw [hcs, pieces_append hp]
      rw [hcs, List.length_append] at hn
      exact .cons hp (ih rest.length (by omega) rest rfl)

theorem Splits.eq_pieces (h : Splits ps cs) : ps = pieces cs := by
  induction h with
  | nil => rw [pieces]
  | cons hp h ih => rw [pieces_append hp, ← ih]

theorem splits_of_not_mem {c : Char} (h : '$' ∉ c :: cs) : Splits [.literal (c :: cs)] (c :: cs) := by
  have hfits : (Piece.literal (c :: cs)).Fits [] := ⟨List.cons_ne_nil c cs, h, by simp⟩
  simpa [Piece.source] using Splits.cons hfits .nil

end Scanning

section Values

variable {lookup lookup' : String → Option String} {p : Piece}

theorem Piece.value_congr (h : ∀ name, p.name? = some name → lookup name = lookup' name) :
    p.value lookup = p.value lookup' := by
  cases p with
  | literal cs => rfl
  | dollar => rfl
  | bare name | braced name => rw [value, value, h _ rfl]

end Values

end Expand

section Expansion

open Expand

variable {lookup : String → Option String} {s : String}

theorem expand_of_splits {ps : List Piece} (h : Splits ps s.toList) (lookup : String → Option String) :
    expand lookup s = String.ofList (ps.flatMap (Piece.value lookup)) := by
  rw [expand, ← h.eq_pieces]

theorem expand_of_not_mem (h : '$' ∉ s.toList) : expand lookup s = s := by
  cases hs : s.toList with
  | nil =>
    rw [expand_of_splits (hs ▸ Splits.nil), List.flatMap_nil, ← hs, String.ofList_toList]
  | cons c cs =>
    have hsplits : Splits [.literal (c :: cs)] s.toList := hs ▸ splits_of_not_mem (hs ▸ h)
    rw [expand_of_splits hsplits, List.flatMap_singleton, Piece.value, ← hs, String.ofList_toList]

/-- A text falls into pieces in just one way, and expanding it puts the values of the pieces side by side. So no value
is read again, and only the names that occur are looked up. -/
theorem expand_one_pass (s : String) :
    (∃! ps, Splits ps s.toList) ∧
      (∀ ps, Splits ps s.toList →
        (∀ lookup, expand lookup s = String.ofList (ps.flatMap (Piece.value lookup))) ∧
          ∀ lookup lookup', (∀ p ∈ ps, ∀ name, p.name? = some name → lookup name = lookup' name) →
            expand lookup s = expand lookup' s) ∧
      ('$' ∉ s.toList → ∀ lookup, expand lookup s = s) := by
  refine ⟨⟨pieces s.toList, splits_pieces _, fun ps h => h.eq_pieces⟩, fun ps h => ⟨expand_of_splits h, ?_⟩,
    fun h lookup => expand_of_not_mem h⟩
  intro lookup lookup' hagree
  have hvalues : ps.flatMap (Piece.value lookup) = ps.flatMap (Piece.value lookup') :=
    List.flatMap_congr fun p hp => Piece.value_congr (hagree p hp)
  rw [expand_of_splits h, expand_of_splits h, hvalues]

-- values keep their dollar signs, and braces that nothing closes stand for themselves
example : expand (fun _ => some "$A") "$B-$\x7bC\x7d$\x7b$D" = "$A-$A$\x7b$A" := by decide +kernel

end Expansion

end Rollout
