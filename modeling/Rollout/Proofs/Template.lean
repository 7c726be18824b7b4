import Rollout.Template
import Rollout.Proofs.Fault
import Mathlib.Data.List.Chain
import Mathlib.Data.List.TakeWhile

/-! The grammar of templates. Cutting a text into segments accepts exactly the texts that the grammar writes, and an
action can open only where two opening braces stand side by side: a text without them is its own rendering, and in a
rendering none come together across the borders of literal text and values that hold no brace. -/

namespace Rollout

theorem Text.contains_iff {pat cs : List Char} : contains pat cs = true ↔ pat <:+: cs := by
  induction cs with
  | nil => simp [contains]
  | cons c cs ih => rw [contains, Bool.or_eq_true, ih, List.isPrefixOf_iff_prefix, List.infix_cons_iff]

namespace Template

section Grammar

/-- No two opening braces stand side by side, so that no action opens. -/
def Plain (cs : List Char) : Prop := cs.IsChain fun a b => ¬ (a = '\x7b' ∧ b = '\x7b')

/-- The source of a reference to a variable: between its braces stand a dot and the name, which may be padded. -/
inductive Action (name : List Char) : List Char → Prop
  | intro (before after : List Char) (hbefore : ∀ c ∈ before, isPadding c = true)
      (hafter : ∀ c ∈ after, isPadding c = true) (hne : name ≠ []) (hname : ∀ c ∈ name, Text.isNameChar c = true) :
      Action name ('\x7b' :: '\x7b' :: (before ++ '.' :: (name ++ (after ++ ['\x7d', '\x7d']))))

/-- The texts that are cut into these segments. A text is never next to another one, and does not end in a brace that
would open the action after it one place too early. -/
inductive Written : List Segment → List Char → Prop
  | nil : Written [] []
  | var {name src cs : List Char} {segments : List Segment} (hsrc : Action name src) (h : Written segments cs) :
      Written (.var (String.ofList name) :: segments) (src ++ cs)
  | text {t cs : List Char} {segments : List Segment} (hne : t ≠ []) (hplain : Plain t)
      (hlast : segments ≠ [] → t.getLast? ≠ some '\x7b') (hnext : ∀ s, segments.head? ≠ some (.text s))
      (h : Written segments cs) : Written (.text (String.ofList t) :: segments) (t ++ cs)

end Grammar

section Braces

theorem plain_iff {cs : List Char} : Plain cs ↔ ¬ ['\x7b', '\x7b'] <:+: cs := by
  unfold Plain
  rw [List.isChain_iff_forall_rel_of_append_cons_cons]
  constructor
  · rintro h ⟨l₁, l₂, rfl⟩
    exact @h _ _ l₁ l₂ (by simp) ⟨rfl, rfl⟩
  · rintro h a b l₁ l₂ rfl ⟨rfl, rfl⟩
    exact h ⟨l₁, l₂, by simp⟩

theorem plain_append {cs ds : List Char} :
    Plain (cs ++ ds) ↔ Plain cs ∧ Plain ds ∧ ¬ (cs.getLast? = some '\x7b' ∧ ds.head? = some '\x7b') := by
  unfold Plain
  rw [List.isChain_append]
  simp only [Option.mem_def]
  grind

theorem plain_of_not_mem {cs : List Char} (h : '\x7b' ∉ cs) : Plain cs := by
  rw [plain_iff]
  intro hin
  exact h (hin.subset (List.mem_cons_self ..))

theorem opens_iff {cs : List Char} : opens cs = true ↔ ['\x7b', '\x7b'] <+: cs := by
  match cs with
  | [] => simp [opens]
  | [c] => simp [opens, List.cons_prefix_cons]
  | c :: d :: cs =>
    simp only [opens, Bool.and_eq_true, beq_iff_eq, List.cons_prefix_cons, List.nil_prefix, and_true]
    exact and_congr eq_comm eq_comm

theorem opens_cons {c : Char} {cs : List Char} : opens (c :: cs) = true ↔ c = '\x7b' ∧ cs.head? = some '\x7b' := by
  cases cs <;> simp [opens]

theorem plain_cons {c : Char} {cs : List Char} : Plain (c :: cs) ↔ ¬ opens (c :: cs) = true ∧ Plain cs := by
  rw [opens_cons, Plain, List.isChain_cons]
  exact and_congr_left' (by simp only [Option.mem_def]; grind)

theorem not_plain_of_opens {cs : List Char} (h : opens cs = true) : ¬ Plain cs := by
  rw [plain_iff, not_not]
  exact (opens_iff.1 h).isInfix

theorem opens_append {cs : List Char} (h : opens cs = true) (ds : List Char) : opens (cs ++ ds) = true :=
  opens_iff.2 ((opens_iff.1 h).trans (List.prefix_append ..))

end Braces

section Actions

variable {name src rest cs : List Char}

theorem Action.opens (h : Action name src) : opens src = true := by
  cases h
  rfl

theorem close?_eq_some : close? cs = some rest ↔ cs = '\x7d' :: '\x7d' :: rest := by
  unfold close?
  grind

theorem not_isNameChar_of_isPadding {c : Char} (h : isPadding c = true) : Text.isNameChar c = false := by
  simp only [isPadding, Bool.or_eq_true, beq_iff_eq] at h
  rcases h with ((rfl | rfl) | rfl) | rfl <;> rfl

theorem dropWhile_padding {pad : List Char} {c : Char} (h : ∀ d ∈ pad, isPadding d = true) (hc : ¬ isPadding c = true)
    (rest : List Char) : (pad ++ c :: rest).dropWhile isPadding = c :: rest := by
  rw [List.dropWhile_append_of_pos h, List.dropWhile_cons_of_neg hc]

/-- The name of an action is all the name characters after the dot: padding is none, and a closing brace is none. -/
theorem span_name {pad : List Char} (hname : ∀ c ∈ name, Text.isNameChar c = true)
    (hpad : ∀ c ∈ pad, isPadding c = true) (rest : List Char) :
    (name ++ (pad ++ '\x7d' :: rest)).takeWhile Text.isNameChar = name ∧
      (name ++ (pad ++ '\x7d' :: rest)).dropWhile Text.isNameChar = pad ++ '\x7d' :: rest := by
  have hstop : ∃ c cs, pad ++ '\x7d' :: rest = c :: cs ∧ ¬ Text.isNameChar c = true := by
    cases pad with
    | nil => exact ⟨'\x7d', rest, rfl, by decide⟩
    | cons c pad =>
      have hc := not_isNameChar_of_isPadding (hpad c (List.mem_cons_self ..))
      exact ⟨c, pad ++ '\x7d' :: rest, rfl, by simp [hc]⟩
  obtain ⟨c, cs, heq, hc⟩ := hstop
  rw [heq, List.takeWhile_append_of_pos hname, List.dropWhile_append_of_pos hname, List.takeWhile_cons_of_neg hc,
    List.dropWhile_cons_of_neg hc]
  exact ⟨List.append_nil name, rfl⟩

theorem exists_action_of_action? (h : action? cs = some (name, rest)) :
    ∃ src, Action name src ∧ '\x7b' :: '\x7b' :: cs = src ++ rest := by
  unfold action? at h
  split at h
  · cases h
  rename_i c ds hds
  dsimp only at h
  split at h
  · rename_i hdot
    obtain ⟨r, hclose, heq⟩ := Option.map_eq_some_iff.1 h
    cases heq
    obtain ⟨rfl, hne⟩ := hdot
    have hend := close?_eq_some.1 hclose
    refine ⟨_, .intro (cs.takeWhile isPadding) ((ds.dropWhile Text.isNameChar).takeWhile isPadding)
      (fun _ => List.mem_takeWhile_imp) (fun _ => List.mem_takeWhile_imp) hne (fun _ => List.mem_takeWhile_imp), ?_⟩
    calc '\x7b' :: '\x7b' :: cs
        = '\x7b' :: '\x7b' :: (cs.takeWhile isPadding ++ '.' :: ds) := by
          rw [← hds, List.takeWhile_append_dropWhile]
      _ = '\x7b' :: '\x7b' :: (cs.takeWhile isPadding ++ '.' :: (ds.takeWhile Text.isNameChar ++
            ((ds.dropWhile Text.isNameChar).takeWhile isPadding ++ '\x7d' :: '\x7d' :: rest))) := by
          rw [← hend, List.takeWhile_append_dropWhile, List.takeWhile_append_dropWhile]
      _ = _ := by simp
  · cases h

theorem action?_of_action (h : Action name src) (heq : '\x7b' :: '\x7b' :: cs = src ++ rest) :
    action? cs = some (name, rest) := by
  obtain ⟨before, after, hbefore, hafter, hne, hname⟩ := h
  obtain rfl : cs = before ++ '.' :: (name ++ (after ++ '\x7d' :: '\x7d' :: rest)) := by simpa using heq
  obtain ⟨htake, hdrop⟩ := span_name hname hafter ('\x7d' :: rest)
  unfold action?
  rw [dropWhile_padding hbefore (by decide)]
  dsimp only
  rw [htake, if_pos ⟨rfl, hne⟩, hdrop, dropWhile_padding hafter (by decide), close?_eq_some.2 rfl]
  rfl

end Actions

section Cutting

variable {segments : List Segment} {name src cs t : List Char}

theorem head?_append_take (t cs : List Char) : (t ++ cs.take 1).head? = (t ++ cs).head? := by
  simp [List.head?_append, List.head?_take]

/-- What comes before the first opening braces: no pair of braces begins in it, not even with the first of the rest. -/
theorem textRun_spec (cs : List Char) :
    (textRun cs).1 ++ (textRun cs).2 = cs ∧ ((textRun cs).2 = [] ∨ opens (textRun cs).2 = true) ∧
      Plain ((textRun cs).1 ++ (textRun cs).2.take 1) := by
  induction cs with
  | nil => exact ⟨rfl, .inl rfl, List.isChain_nil⟩
  | cons c cs ih =>
    unfold textRun
    split
    · rename_i hopens
      exact ⟨rfl, .inr hopens, List.isChain_singleton c⟩
    · rename_i hclosed
      obtain ⟨hcs, hend, hplain⟩ := ih
      have hborder : ¬ opens (c :: ((textRun cs).1 ++ (textRun cs).2.take 1)) = true := by
        rwa [opens_cons, head?_append_take, hcs, ← opens_cons]
      exact ⟨congrArg (c :: ·) hcs, hend, plain_cons.2 ⟨hborder, hplain⟩⟩

theorem not_opens_append (hne : t ≠ []) (hplain : Plain (t ++ cs.take 1)) : ¬ opens (t ++ cs) = true := by
  cases t with
  | nil => exact absurd rfl hne
  | cons c t =>
    obtain ⟨hclosed, -⟩ := plain_cons.1 hplain
    rwa [List.cons_append, opens_cons, ← head?_append_take, ← opens_cons]

theorem textRun_append (hplain : Plain (t ++ cs.take 1)) (hcs : cs = [] ∨ opens cs = true) :
    textRun (t ++ cs) = (t, cs) := by
  induction t with
  | nil =>
    rcases hcs with rfl | hopens
    · rfl
    · cases cs with
      | nil => rfl
      | cons c cs => exact if_pos hopens
  | cons c t ih =>
    have hclosed : ¬ opens (c :: (t ++ cs)) = true := not_opens_append (List.cons_ne_nil c t) hplain
    rw [List.cons_append, textRun, if_neg hclosed, ih (plain_cons.1 hplain).2]

theorem segmentsFrom_action (offset : Nat) (h : Action name src) (cs : List Char) :
    segmentsFrom offset (src ++ cs) =
      (segmentsFrom (offset + Text.byteLength src) cs).map (.var (String.ofList name) :: ·) := by
  obtain ⟨ds, hds⟩ : ∃ ds, src = '\x7b' :: '\x7b' :: ds := by
    cases h
    exact ⟨_, rfl⟩
  have haction : action? (('\x7b' :: (ds ++ cs)).drop 1) = some (name, cs) :=
    action?_of_action h (by rw [hds]; rfl)
  have hused : (src ++ cs).take ((src ++ cs).length - cs.length) = src := by simp
  have hopens : opens ('\x7b' :: '\x7b' :: (ds ++ cs)) = true := rfl
  rw [hds, List.cons_append, List.cons_append, segmentsFrom, if_pos hopens]
  split
  · rename_i hnone
    rw [haction] at hnone
    cases hnone
  · rename_i name' rest hsome
    rw [haction] at hsome
    cases hsome
    rw [hds, List.cons_append, List.cons_append] at hused
    dsimp only
    rw [hused]
    cases segmentsFrom (offset + Text.byteLength ('\x7b' :: '\x7b' :: ds)) cs <;> rfl

theorem segmentsFrom_text (offset : Nat) (hne : t ≠ []) (hplain : Plain (t ++ cs.take 1))
    (hcs : cs = [] ∨ opens cs = true) :
    segmentsFrom offset (t ++ cs) =
      (segmentsFrom (offset + Text.byteLength t) cs).map (.text (String.ofList t) :: ·) := by
  cases t with
  | nil => exact absurd rfl hne
  | cons c t =>
    have hclosed : ¬ opens (c :: (t ++ cs)) = true := not_opens_append hne hplain
    rw [List.cons_append, segmentsFrom, if_neg hclosed]
    dsimp only
    rw [textRun_append (plain_cons.1 hplain).2 hcs]
    cases segmentsFrom (offset + Text.byteLength (c :: t)) cs <;> rfl

theorem segmentsFrom_malformed (offset : Nat) (hopens : opens cs = true)
    (h : ∀ name src rest, Action name src → cs ≠ src ++ rest) :
    segmentsFrom offset cs = .error (.malformed offset) := by
  obtain ⟨ds, rfl⟩ := opens_iff.1 hopens
  rw [List.cons_append] at hopens ⊢
  rw [segmentsFrom, if_pos hopens]
  split
  · rfl
  · rename_i name rest hsome
    obtain ⟨src, hsrc, heq⟩ := exists_action_of_action? hsome
    exact absurd heq (h name src rest hsrc)

/-- How a text can begin. -/
inductive Begins : List Char → Prop
  | done : Begins []
  | action {name src : List Char} (h : Action name src) (cs : List Char) : Begins (src ++ cs)
  | malformed {cs : List Char} (hopens : opens cs = true) (h : ∀ name src rest, Action name src → cs ≠ src ++ rest) :
      Begins cs
  | text {t cs : List Char} (hne : t ≠ []) (hplain : Plain (t ++ cs.take 1)) (hcs : cs = [] ∨ opens cs = true) :
      Begins (t ++ cs)

theorem begins : ∀ cs, Begins cs
  | [] => .done
  | c :: cs => by
    by_cases hopens : opens (c :: cs) = true
    · by_cases h : ∃ name src rest, Action name src ∧ c :: cs = src ++ rest
      · obtain ⟨name, src, rest, hsrc, heq⟩ := h
        rw [heq]
        exact .action hsrc rest
      · exact .malformed hopens fun name src rest hsrc heq => h ⟨name, src, rest, hsrc, heq⟩
    · obtain ⟨hcs, hend, hplain⟩ := textRun_spec (c :: cs)
      have hne : (textRun (c :: cs)).1 ≠ [] := by simp [textRun, hopens]
      rw [← hcs]
      exact .text hne hplain hend

theorem plain_append_take :
    Plain (t ++ cs.take 1) ↔ Plain t ∧ ¬ (t.getLast? = some '\x7b' ∧ cs.head? = some '\x7b') := by
  have hone : Plain (cs.take 1) := by
    cases cs with
    | nil => exact List.isChain_nil
    | cons c cs => exact List.isChain_singleton c
  rw [plain_append, List.head?_take, if_neg Nat.one_ne_zero]
  exact and_congr_right' (and_iff_right hone)

namespace Written

theorem eq_nil (h : Written segments []) : segments = [] := by
  generalize hcs : ([] : List Char) = cs at h
  cases h with
  | nil => rfl
  | var hsrc h =>
    cases hsrc
    cases hcs
  | text hne => exact absurd (List.append_eq_nil_iff.1 hcs.symm).1 hne

theorem border (hplain : Plain t) (hlast : segments ≠ [] → t.getLast? ≠ some '\x7b') (h : Written segments cs) :
    Plain (t ++ cs.take 1) := by
  refine plain_append_take.2 ⟨hplain, fun ⟨hopen, hhead⟩ => ?_⟩
  by_cases hs : segments = []
  · subst hs
    cases h
    cases hhead
  · exact hlast hs hopen

theorem opens (h : Written segments cs) (hnext : ∀ s, segments.head? ≠ some (.text s)) :
    cs = [] ∨ opens cs = true := by
  cases h with
  | nil => exact .inl rfl
  | var hsrc => exact .inr (opens_append hsrc.opens _)
  | text => exact absurd rfl (hnext _)

theorem head?_ne_text (h : Written segments cs) (hcs : cs = [] ∨ Template.opens cs = true) (s : String) :
    segments.head? ≠ some (.text s) := by
  cases h with
  | nil => nofun
  | var => nofun
  | text hne hplain hlast hnext h =>
    rcases hcs with hnil | hopens
    · exact absurd (List.append_eq_nil_iff.1 hnil).1 hne
    · exact absurd hopens (not_opens_append hne (h.border hplain hlast))

end Written

theorem written_of_segmentsFrom {offset : Nat} (h : segmentsFrom offset cs = .ok segments) : Written segments cs := by
  -- on the length: the rest after an action is no part of the list that the pattern shows
  induction hn : cs.length using Nat.strongRecOn generalizing offset cs segments with
  | ind n ih =>
    cases begins cs with
    | done =>
      rw [segmentsFrom] at h
      cases h
      exact .nil
    | @action name src hsrc cs =>
      rw [segmentsFrom_action offset hsrc] at h
      obtain ⟨rest, hrest, rfl⟩ := map_eq_ok.1 h
      have hpos : 0 < src.length := by
        cases hsrc
        exact Nat.succ_pos _
      exact .var hsrc (ih cs.length (by rw [← hn, List.length_append]; omega) hrest rfl)
    | malformed hopens hnone =>
      rw [segmentsFrom_malformed offset hopens hnone] at h
      cases h
    | @text t cs hne hplain hcs =>
      rw [segmentsFrom_text offset hne hplain hcs] at h
      obtain ⟨rest, hrest, rfl⟩ := map_eq_ok.1 h
      have hpos : 0 < t.length := List.length_pos_iff.2 hne
      -- what follows the text is nothing or opens an action, so it starts with no second text
      have hw : Written rest cs := ih cs.length (by rw [← hn, List.length_append]; omega) hrest rfl
      obtain ⟨hplain, hborder⟩ := plain_append_take.1 hplain
      refine .text hne hplain (fun hs hopen => hborder ⟨hopen, ?_⟩) (hw.head?_ne_text hcs) hw
      rcases hcs with rfl | hopens
      · exact absurd hw.eq_nil hs
      · obtain ⟨ds, rfl⟩ := opens_iff.1 hopens
        rfl

/-- Whatever the offset, cutting gives just the segments that the text is written from. -/
theorem segmentsFrom_eq_ok (offset : Nat) : segmentsFrom offset cs = .ok segments ↔ Written segments cs := by
  refine ⟨written_of_segmentsFrom, fun h => ?_⟩
  induction h generalizing offset with
  | nil => rw [segmentsFrom]
  | var hsrc h ih =>
    rw [segmentsFrom_action offset hsrc, ih]
    rfl
  | text hne hplain hlast hnext h ih =>
    rw [segmentsFrom_text offset hne (h.border hplain hlast) (h.opens hnext), ih]
    rfl

end Cutting

section Rendering

variable {lookup : String → Option String} {segments : List Segment} {cs : List Char}

/-- What stands for a segment in a rendering. -/
def value (lookup : String → Option String) : Segment → List Char
  | .text s => s.toList
  | .var name => ((lookup name).getD "").toList

theorem fill_eq_ok {r : String} :
    fill lookup segments = .ok r ↔ (∀ name, .var name ∈ segments → (lookup name).isSome) ∧
      r = String.ofList (segments.flatMap (value lookup)) := by
  induction segments generalizing r with
  | nil =>
    rw [fill, Except.ok.injEq, eq_comm]
    exact (and_iff_right nofun).symm
  | cons segment segments ih =>
    cases segment with
    | text s =>
      rw [fill, map_eq_ok]
      simp only [ih, List.mem_cons, reduceCtorEq, false_or, List.flatMap_cons, value, String.ofList_append,
        String.ofList_toList]
      constructor
      · rintro ⟨_, ⟨hknown, rfl⟩, rfl⟩
        exact ⟨hknown, rfl⟩
      · rintro ⟨hknown, rfl⟩
        exact ⟨_, ⟨hknown, rfl⟩, rfl⟩
    | var name =>
      rw [fill]
      cases hl : lookup name with
      | none =>
        refine iff_of_false nofun fun ⟨hknown, _⟩ => ?_
        have := hknown name (List.mem_cons_self ..)
        rw [hl] at this
        cases this
      | some v =>
        rw [map_eq_ok]
        simp only [ih, List.mem_cons, Segment.var.injEq, List.flatMap_cons, value, hl, Option.getD_some,
          String.ofList_append, String.ofList_toList]
        constructor
        · rintro ⟨_, ⟨hknown, rfl⟩, rfl⟩
          refine ⟨?_, rfl⟩
          rintro n (rfl | hn)
          · rw [hl]
            rfl
          · exact hknown n hn
        · rintro ⟨hknown, rfl⟩
          exact ⟨_, ⟨fun n hn => hknown n (.inr hn), rfl⟩, rfl⟩

theorem render_eq_ok {s r : String} :
    render lookup s = .ok r ↔ ∃ segments, Written segments s.toList ∧
      (∀ name, .var name ∈ segments → (lookup name).isSome) ∧
        r = String.ofList (segments.flatMap (value lookup)) := by
  unfold render parse
  cases h : segmentsFrom 0 s.toList with
  | error e =>
    refine iff_of_false nofun ?_
    rintro ⟨segments, hw, -⟩
    rw [(segmentsFrom_eq_ok 0).2 hw] at h
    cases h
  | ok segments =>
    refine fill_eq_ok.trans ⟨fun hr => ⟨segments, (segmentsFrom_eq_ok 0).1 h, hr⟩, ?_⟩
    rintro ⟨segments', hw, hr⟩
    rw [(segmentsFrom_eq_ok 0).2 hw] at h
    cases h
    exact hr

theorem not_plain_of_segmentsFrom_error {offset : Nat} {e : TemplateError} (h : segmentsFrom offset cs = .error e) :
    ¬ Plain cs := by
  cases begins cs with
  | done =>
    rw [segmentsFrom] at h
    cases h
  | action hsrc => exact not_plain_of_opens (opens_append hsrc.opens _)
  | malformed hopens => exact not_plain_of_opens hopens
  | text hne hplain hcs =>
    rcases hcs with rfl | hopens
    · rw [segmentsFrom_text offset hne hplain (.inl rfl), segmentsFrom] at h
      cases h
    · exact fun hall => not_plain_of_opens hopens (plain_append.1 hall).2.1

theorem Written.not_plain {name : String} (h : Written segments cs) (hv : .var name ∈ segments) : ¬ Plain cs := by
  induction h with
  | nil => cases hv
  | var hsrc => exact not_plain_of_opens (opens_append hsrc.opens _)
  | text _ _ _ _ _ ih =>
    have hrest := ih ((List.mem_cons.1 hv).resolve_left nofun)
    exact fun hall => hrest (plain_append.1 hall).2.1

/-- A template that cannot be rendered shows it: the braces of an action stay in it. -/
theorem not_plain_of_render_error {s : String} {e : TemplateError} (h : render lookup s = .error e) :
    ¬ Plain s.toList := by
  unfold render parse at h
  cases hcut : segmentsFrom 0 s.toList with
  | error e => exact not_plain_of_segmentsFrom_error hcut
  | ok segments =>
    rw [hcut] at h
    have hunknown : ¬ ∀ name, .var name ∈ segments → (lookup name).isSome := by
      intro hknown
      cases h.symm.trans (fill_eq_ok.2 ⟨hknown, rfl⟩)
    obtain ⟨name, hunknown⟩ := not_forall.1 hunknown
    exact (written_of_segmentsFrom hcut).not_plain (Classical.not_imp.1 hunknown).1

/-- No braces come together across the borders of texts and values. -/
theorem Written.plain_flatMap (h : Written segments cs)
    (hv : ∀ name v, .var name ∈ segments → lookup name = some v → '\x7b' ∉ v.toList) :
    Plain (segments.flatMap (value lookup)) := by
  induction h with
  | nil => exact List.isChain_nil
  | @var name src cs segments hsrc h ih =>
    have hrest := ih fun n v hn => hv n v (List.mem_cons_of_mem _ hn)
    have hvalue : '\x7b' ∉ value lookup (.var (String.ofList name)) := by
      rw [value]
      cases hl : lookup (String.ofList name) with
      | none => exact List.not_mem_nil
      | some v => exact hv _ v (List.mem_cons_self ..) hl
    rw [List.flatMap_cons, plain_append]
    exact ⟨plain_of_not_mem hvalue, hrest, fun ⟨hlast, _⟩ => hvalue (List.mem_of_getLast? hlast)⟩
  | @text t cs segments hne hplain hlast hnext h ih =>
    have hrest := ih fun n v hn => hv n v (List.mem_cons_of_mem _ hn)
    have ht : value lookup (.text (String.ofList t)) = t := String.toList_ofList
    rw [List.flatMap_cons, plain_append, ht]
    -- a text that something follows does not end in a brace, whatever the value after it begins with
    refine ⟨hplain, hrest, fun ⟨hopen, hhead⟩ => hlast ?_ hopen⟩
    rintro rfl
    cases hhead

end Rendering

end Template

end Rollout
