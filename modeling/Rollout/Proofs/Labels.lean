import Rollout.Proofs.Resolution
import Rollout.Proofs.Text
import Mathlib.Data.List.Perm.Basic

/-! Labels are the tokens that are written, however they are written. A text is cut into its longest runs of other
characters than commas and white space, and a list is trimmed item by item; the set that either of them gives has no
memory of the order, of repetitions, of blanks or of the separators, and what satisfies what is inclusion of sets. -/

namespace Rollout

namespace LabelSet

variable {a b : LabelSet}

theorem mem_foldl_insert {ts : List String} {t : String} :
    t ∈ (ts.foldl insert a).tokens ↔ t ∈ a.tokens ∨ t ∈ ts := by
  induction ts generalizing a with
  | nil => simp
  | cons u ts ih =>
    rw [List.foldl_cons, ih, insert, mem_insertToken, List.mem_cons]
    tauto

theorem mem_ofList {ts : List String} {t : String} : t ∈ (ofList ts).tokens ↔ t ∈ ts := by
  rw [ofList, mem_foldl_insert]
  simp [empty]

theorem nodup (s : LabelSet) : s.tokens.Nodup := by
  refine s.ascending.imp ?_
  rintro t u hlt rfl
  exact String.lt_irrefl t hlt

/-- Ascending order leaves no choice in how a set is listed. -/
theorem eq_of_mem_iff (h : ∀ t, t ∈ a.tokens ↔ t ∈ b.tokens) : a = b := by
  have hperm : a.tokens.Perm b.tokens := (List.perm_ext_iff_of_nodup a.nodup b.nodup).2 h
  have htokens : a.tokens = b.tokens := by
    refine hperm.eq_of_pairwise (fun x y _ _ hxy hyx => ?_) a.ascending b.ascending
    exact absurd hyx (String.lt_asymm hxy)
  cases a
  cases b
  cases htokens
  rfl

theorem satisfies_antisymm (hab : a.satisfies b = true) (hba : b.satisfies a = true) : a = b :=
  eq_of_mem_iff fun t => ⟨satisfies_iff.1 hab t, satisfies_iff.1 hba t⟩

end LabelSet

namespace RawLabels

variable {r r' : RawLabels} {t : String}

theorem isSeparator_of_isBlank (c : Char) (h : Text.isBlank c = true) : isSeparator c = true := by
  simp [isSeparator, h]

/-! ### Tokens -/

/-- The tokens that are written: the longest runs of other characters than separators in a text, and what is left of
the items of a list without the white space around them. Nothing is no token. -/
def Token : RawLabels → String → Prop
  | inline s, t => t ≠ "" ∧ Text.Run isSeparator s.toList t.toList
  | list items, t => t ≠ "" ∧ ∃ item ∈ items, Text.Trims item.toList t.toList

theorem trim_eq_iff {item : String} : Text.trim item = t ↔ Text.Trims item.toList t.toList := by
  rw [Text.trims_iff, Text.trim, ← String.toList_inj, String.toList_ofList]

theorem mem_tokens : t ∈ r.tokens ↔ r.Token t := by
  cases r with
  | inline s => exact Text.mem_tokens_iff isSeparator_of_isBlank
  | list items =>
    simp only [tokens, Token, List.mem_filter, List.mem_map, trim_eq_iff, decide_eq_true_eq]
    exact and_comm

theorem mem_parse : t ∈ r.parse.tokens ↔ r.Token t := by
  rw [parse, LabelSet.mem_ofList, mem_tokens]

theorem parse_eq_iff : r.parse = r'.parse ↔ ∀ t, r.Token t ↔ r'.Token t := by
  simp only [← mem_parse]
  exact ⟨fun h t => by rw [h], LabelSet.eq_of_mem_iff⟩

/-! ### Respelling -/

/-- Labels written another way: in another order, with repetitions, with blanks, with white space around the items, or
as a text in which the items, none of them with a separator inside, stand between any separators. -/
inductive Respelled : RawLabels → RawLabels → Prop
  | refl (r : RawLabels) : Respelled r r
  | symm {r r' : RawLabels} (h : Respelled r r') : Respelled r' r
  | trans {r r' r'' : RawLabels} (h : Respelled r r') (h' : Respelled r' r'') : Respelled r r''
  | order {items items' : List String} (h : items.Perm items') : Respelled (list items) (list items')
  | repetition {item : String} {items : List String} (h : item ∈ items) : Respelled (list items) (list (item :: items))
  | blank {item : String} (h : ∀ c ∈ item.toList, Text.isBlank c = true) (items : List String) :
    Respelled (list items) (list (item :: items))
  | around {item item' : String} (h : Text.Trims item.toList item'.toList) (items : List String) :
    Respelled (list (item' :: items)) (list (item :: items))
  | text {s : String} {items : List String}
    (h : Text.Spread isSeparator (items.map String.toList) s.toList) : Respelled (list items) (inline s)

theorem token_cons {item : String} {items : List String} :
    (list (item :: items)).Token t ↔ (t ≠ "" ∧ Text.trim item = t) ∨ (list items).Token t := by
  simp only [Token, List.exists_mem_cons_iff, ← trim_eq_iff, and_or_left]

theorem tokens_of_spread {s : String} {items : List String}
    (h : Text.Spread isSeparator (items.map String.toList) s.toList) : (inline s).tokens = items := by
  have hmap : (inline s).tokens.map String.toList = items.map String.toList := by
    rw [← h.pieces_eq]
    exact Text.tokens_eq_pieces isSeparator_of_isBlank s
  exact List.map_injective_iff.2 (fun a b => String.toList_inj.1) hmap

/-- What is cut out of a text stays as it is in a list. -/
theorem token_list_of_runs {s : String} {items : List String} (h : ∀ u, u ∈ items ↔ (inline s).Token u) :
    (list items).Token t ↔ (inline s).Token t := by
  have hself : ∀ u ∈ items, Text.trim u = u := by
    intro u hu
    refine trim_eq_iff.2 (Text.trims_iff.2 (Text.trimList_of_not_blank fun c hc hb => ?_))
    exact ((h u).1 hu).2.solid c hc (isSeparator_of_isBlank c hb)
  rw [← mem_tokens, ← h, tokens, List.map_congr_left hself, List.map_id', List.mem_filter]
  refine and_iff_left_of_imp fun ht => ?_
  simpa using ((h t).1 ht).1

theorem Respelled.parse_eq (h : Respelled r r') : r.parse = r'.parse := by
  induction h with
  | refl r => rfl
  | symm _ ih => exact ih.symm
  | trans _ _ ih ih' => exact ih.trans ih'
  | order h => exact parse_eq_iff.2 fun t => by simp only [Token, h.mem_iff]
  | repetition h =>
    refine parse_eq_iff.2 fun t => ?_
    rw [token_cons, or_iff_right_of_imp]
    exact fun ⟨ht, hitem⟩ => ⟨ht, _, h, trim_eq_iff.1 hitem⟩
  | blank h items =>
    refine parse_eq_iff.2 fun t => ?_
    rw [token_cons, or_iff_right]
    rintro ⟨ht, rfl⟩
    rw [Text.trim, Text.trimList_eq_nil.2 h] at ht
    exact ht rfl
  | around h items =>
    refine parse_eq_iff.2 fun t => ?_
    rw [token_cons, token_cons, trim_eq_iff.2 h, trim_eq_iff.2 h.self]
  | text h =>
    refine parse_eq_iff.2 fun t => ?_
    rw [token_list_of_runs fun u => ?_]
    rw [← mem_tokens, tokens_of_spread h]

/-! Each spelling can be brought to the list of its tokens. -/

theorem respelled_trim (items rest : List String) :
    Respelled (list (items ++ rest)) (list (items.map Text.trim ++ rest)) := by
  induction items generalizing rest with
  | nil => exact .refl _
  | cons item items ih =>
    have htrim : Text.Trims item.toList (Text.trim item).toList := trim_eq_iff.1 rfl
    have hfirst : Respelled (list (item :: (items ++ rest))) (list (items ++ Text.trim item :: rest)) :=
      (Respelled.around htrim (items ++ rest)).symm.trans (.order List.perm_middle.symm)
    exact (hfirst.trans (ih _)).trans (.order List.perm_middle)

theorem respelled_drop_empty (items rest : List String) :
    Respelled (list (items ++ rest)) (list (items.filter (· ≠ "") ++ rest)) := by
  induction items generalizing rest with
  | nil => exact .refl _
  | cons item items ih =>
    by_cases hitem : item = ""
    · subst hitem
      exact (Respelled.blank (by simp) (items ++ rest)).symm.trans (ih rest)
    · rw [List.filter_cons_of_pos (by simpa using hitem)]
      have hfirst : Respelled (list (item :: (items ++ rest))) (list (items ++ item :: rest)) :=
        .order List.perm_middle.symm
      exact (hfirst.trans (ih _)).trans (.order List.perm_middle)

theorem respelled_tokens (r : RawLabels) : Respelled r (list r.tokens) := by
  cases r with
  | inline s =>
    refine (Respelled.text (Text.spread_iff.2 ?_)).symm
    exact (Text.tokens_eq_pieces isSeparator_of_isBlank s).symm
  | list items =>
    have htrim := respelled_trim items []
    have hdrop := respelled_drop_empty (items.map Text.trim) []
    simp only [List.append_nil] at htrim hdrop
    exact htrim.trans hdrop

theorem respelled_append {items more : List String} (h : ∀ item ∈ more, item ∈ items) :
    Respelled (list items) (list (more ++ items)) := by
  induction more with
  | nil => exact .refl _
  | cons item more ih =>
    have hrest := ih fun u hu => h u (List.mem_cons_of_mem _ hu)
    exact hrest.trans (.repetition (List.mem_append_right _ (h item List.mem_cons_self)))

theorem respelled_of_mem_iff {items items' : List String} (h : ∀ t, t ∈ items ↔ t ∈ items') :
    Respelled (list items) (list items') := by
  have hleft := respelled_append fun t ht => (h t).2 ht
  have hright := respelled_append fun t ht => (h t).1 ht
  exact (hleft.trans (.order List.perm_append_comm)).trans hright.symm

theorem parse_eq_iff_respelled : r.parse = r'.parse ↔ Respelled r r' := by
  refine ⟨fun h => ?_, Respelled.parse_eq⟩
  have htokens : Respelled (list r.tokens) (list r'.tokens) :=
    respelled_of_mem_iff fun t => by rw [mem_tokens, mem_tokens, parse_eq_iff.1 h]
  exact ((respelled_tokens r).trans htokens).trans (respelled_tokens r').symm

/-- Labels are parsed to the set of the tokens that are written. Two spellings give one set just when one of them can
be respelled as the other, and a requirement is met when each of its tokens is offered: an order on the sets. -/
theorem parse_determined_by_tokens :
    (∀ (r : RawLabels) t, t ∈ r.parse.tokens ↔ r.Token t) ∧
      (∀ s items, (∀ t, t ∈ items ↔ (inline s).Token t) → (inline s).parse = (list items).parse) ∧
      (∀ r r' : RawLabels, r.parse = r'.parse ↔ Respelled r r') ∧
      (∀ r o : RawLabels, r.parse.satisfies o.parse = true ↔ ∀ t, r.Token t → o.Token t) ∧
      (∀ r r' o o', Respelled r r' → Respelled o o' → r'.parse.satisfies o'.parse = r.parse.satisfies o.parse) ∧
      (∀ a : LabelSet, a.satisfies a = true) ∧
      (∀ a b c : LabelSet, a.satisfies b = true → b.satisfies c = true → a.satisfies c = true) ∧
      (∀ a a' b b' : LabelSet, a.satisfies b = true → (∀ t ∈ a'.tokens, t ∈ a.tokens) →
        (∀ t ∈ b.tokens, t ∈ b'.tokens) → a'.satisfies b' = true) ∧
      ∀ a b : LabelSet, a.satisfies b = true → b.satisfies a = true → a = b := by
  refine ⟨fun _ _ => mem_parse, fun s items h => ?_, fun _ _ => parse_eq_iff_respelled, fun r o => ?_,
    fun r r' o o' hr ho => ?_, fun a => ?_, fun a b c hab hbc => ?_, fun a a' b b' h ha hb => ?_,
    fun _ _ => LabelSet.satisfies_antisymm⟩
  · exact parse_eq_iff.2 fun t => (token_list_of_runs h).symm
  · simp only [LabelSet.satisfies_iff, mem_parse]
  · rw [hr.parse_eq, ho.parse_eq]
  · exact LabelSet.satisfies_iff.2 fun t ht => ht
  · rw [LabelSet.satisfies_iff] at hab hbc ⊢
    exact fun t ht => hbc t (hab t ht)
  · rw [LabelSet.satisfies_iff] at h ⊢
    exact fun t ht => hb t (h t (ha t ht))

/-- The same two labels in a text and in lists, required where they are on offer with a third. An item of a list may
hold a separator, at which a text is cut. -/
theorem parse_determined_by_tokens_berth :
    Respelled (inline "gpu,,\u00a0eu-west ,gpu\n") (list ["eu-west", "", "\tgpu "]) ∧
      (inline "gpu,,\u00a0eu-west ,gpu\n").parse = (list ["gpu", "eu-west"]).parse ∧
      (list ["eu-west", "", "\tgpu "]).parse.satisfies (list ["gpu", "spot disk", " eu-west"]).parse = true ∧
      ¬ (list ["gpu", "spot disk", " eu-west"]).Token "disk" ∧ (inline "spot disk").Token "disk" ∧
      ¬ Respelled (inline "spot disk") (list ["spot disk"]) := by
  obtain ⟨hparse, hruns, hspell, -, hsame, hrefl, -, hmono, -⟩ := parse_determined_by_tokens
  have hrespelled : Respelled (inline "gpu,,\u00a0eu-west ,gpu\n") (list ["eu-west", "", "\tgpu "]) :=
    (hspell _ _).1 (by decide +kernel)
  have htokens : (inline "gpu,,\u00a0eu-west ,gpu\n").parse.tokens = ["eu-west", "gpu"] := by decide +kernel
  refine ⟨hrespelled, hruns _ _ fun t => ?_, ?_, fun h => ?_, (hparse _ _).1 (by decide +kernel), fun h => ?_⟩
  · rw [← hparse, htokens]
    simp [or_comm]
  · rw [hsame _ _ _ _ hrespelled (.refl _)]
    refine hmono _ _ _ _ (hrefl (list ["gpu", "eu-west"]).parse) ?_ (by decide +kernel)
    rw [htokens]
    decide +kernel
  · have hno : "disk" ∉ (list ["gpu", "spot disk", " eu-west"]).parse.tokens := by decide +kernel
    exact hno ((hparse _ _).2 h)
  · have hno : (inline "spot disk").parse ≠ (list ["spot disk"]).parse := by decide +kernel
    exact hno ((hspell _ _).2 h)

end RawLabels

end Rollout
