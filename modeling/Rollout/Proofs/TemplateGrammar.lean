import Rollout.Proofs.Template

/-! Which texts are templates, and what is wrong with the others. A template is the sources of its segments one after
another, in one way only. Any other text is a template up to braces that open no action, and where these stand is the
offset of the error. Rendering reports that before it looks up a variable, and otherwise the leftmost variable that it
does not know. -/

namespace Rollout

namespace Text

theorem byteLength_eq (cs : List Char) : byteLength cs = (String.ofList cs).utf8ByteSize := by
  have hfold : ∀ n, cs.foldl (fun n c => n + c.utf8Size) n = n + (String.ofList cs).utf8ByteSize := by
    induction cs with
    | nil => simp
    | cons c cs ih =>
      intro n
      rw [List.foldl_cons, ih, String.ofList_cons, String.utf8ByteSize_append, String.utf8ByteSize_singleton]
      omega
  simpa [byteLength] using hfold 0

theorem byteLength_append (cs ds : List Char) : byteLength (cs ++ ds) = byteLength cs + byteLength ds := by
  simp only [byteLength_eq, String.ofList_append, String.utf8ByteSize_append]

end Text

namespace Template

variable {segments : List Segment} {before rest cs : List Char}

section Sources

/-- The source of a segment. A text is its own source. -/
inductive Source : Segment → List Char → Prop
  | text {t : List Char} (hne : t ≠ []) (hbraces : ¬ ['\x7b', '\x7b'] <:+: t) : Source (.text (String.ofList t)) t
  | var {name src : List Char} (h : Action name src) : Source (.var (String.ofList name)) src

/-- What may follow a segment: no text follows a text, and no variable a text that ends in an opening brace. -/
def Precedes : Segment → Segment → Prop
  | .text _, .text _ => False
  | .text t, .var _ => t.toList.getLast? ≠ some '\x7b'
  | .var _, _ => True

/-- The sources of these segments, one after another, are the text. -/
structure Spelled (segments : List Segment) (cs : List Char) : Prop where
  chain : segments.IsChain Precedes
  sources : ∃ sources, List.Forall₂ Source segments sources ∧ sources.flatten = cs

theorem Written.spelled (h : Written segments cs) : Spelled segments cs := by
  induction h with
  | nil => exact ⟨List.isChain_nil, [], .nil, rfl⟩
  | @var name src cs segments hsrc h ih =>
    obtain ⟨hchain, sources, hall, rfl⟩ := ih
    exact ⟨List.isChain_cons.2 ⟨fun _ _ => trivial, hchain⟩, src :: sources, .cons (.var hsrc) hall, rfl⟩
  | @text t cs segments hne hplain hlast hnext h ih =>
    obtain ⟨hchain, sources, hall, rfl⟩ := ih
    refine ⟨List.isChain_cons.2 ⟨fun next hhead => ?_, hchain⟩, t :: sources,
      .cons (.text hne (plain_iff.1 hplain)) hall, rfl⟩
    rw [Option.mem_def] at hhead
    match next with
    | .text s => exact absurd hhead (hnext s)
    | .var name =>
      have hsome : segments ≠ [] := by
        rintro rfl
        simp at hhead
      simpa [Precedes] using hlast hsome

theorem Spelled.written (h : Spelled segments cs) : Written segments cs := by
  obtain ⟨hchain, sources, hall, rfl⟩ := h
  induction hall with
  | nil => exact .nil
  | @cons segment src segments sources hsrc hall ih =>
    obtain ⟨hhead, htail⟩ := List.isChain_cons.1 hchain
    cases hsrc with
    | var hsrc => exact .var hsrc (ih htail)
    | text hne hbraces =>
      refine .text hne (plain_iff.2 hbraces) (fun hsome hopen => ?_) (fun s hs => hhead _ hs) (ih htail)
      obtain ⟨next, segments, rfl⟩ := List.exists_cons_of_ne_nil hsome
      have hnext := hhead next rfl
      match next with
      | .text s => exact hnext
      | .var name => exact hnext (by simpa using hopen)

theorem spelled_iff : Spelled segments cs ↔ Written segments cs :=
  ⟨Spelled.written, Written.spelled⟩

end Sources

section Failure

/-- The last segment is no text that ends in an opening brace, so that an action may follow. -/
def EndsClear (segments : List Segment) : Prop :=
  ∀ t, segments.getLast? = some (.text t) → t.toList.getLast? ≠ some '\x7b'

/-- The text `before` is a template, and `rest` opens an action that is none. -/
structure Breaks (before rest : List Char) : Prop where
  spelled : ∃ segments, Spelled segments before ∧ EndsClear segments
  opens : ['\x7b', '\x7b'] <+: rest
  malformed : ∀ name src, Action name src → ¬ src <+: rest

theorem endsClear_var {name : String} : EndsClear (.var name :: segments) ↔ EndsClear segments := by
  cases segments <;> simp [EndsClear]

theorem endsClear_text {t : String} :
    EndsClear (.text t :: segments) ↔ (segments = [] → t.toList.getLast? ≠ some '\x7b') ∧ EndsClear segments := by
  cases segments <;> simp [EndsClear]

theorem getLast?_ne_of_clear {t : List Char} (hlast : segments ≠ [] → t.getLast? ≠ some '\x7b')
    (hclear : EndsClear (.text (String.ofList t) :: segments)) : t.getLast? ≠ some '\x7b' := by
  by_cases hs : segments = []
  · simpa using (endsClear_text.1 hclear).1 hs
  · exact hlast hs

/-- A template that an action may follow is cut as it would be alone. -/
theorem segmentsFrom_append (h : Written segments before) (hclear : EndsClear segments) (hrest : opens rest = true)
    (offset : Nat) :
    segmentsFrom offset (before ++ rest) =
      (segmentsFrom (offset + Text.byteLength before) rest).map (segments ++ ·) := by
  induction h generalizing offset with
  | nil =>
    have hnil : Text.byteLength [] = 0 := rfl
    rw [List.nil_append, hnil, Nat.add_zero]
    cases segmentsFrom offset rest <;> rfl
  | @var name src cs segments hsrc h ih =>
    rw [List.append_assoc, segmentsFrom_action offset hsrc, ih (endsClear_var.1 hclear), Text.byteLength_append,
      Nat.add_assoc]
    cases segmentsFrom (offset + (Text.byteLength src + Text.byteLength cs)) rest <;> rfl
  | @text t cs segments hne hplain hlast hnext h ih =>
    have hborder : Plain (t ++ (cs ++ rest).take 1) :=
      plain_append_take.2 ⟨hplain, fun hopen => getLast?_ne_of_clear hlast hclear hopen.1⟩
    have hopens : opens (cs ++ rest) = true := by
      rcases h.opens hnext with rfl | hcs
      · exact hrest
      · exact opens_append hcs rest
    rw [List.append_assoc, segmentsFrom_text offset hne hborder (.inr hopens), ih (endsClear_text.1 hclear).2,
      Text.byteLength_append, Nat.add_assoc]
    cases segmentsFrom (offset + (Text.byteLength t + Text.byteLength cs)) rest <;> rfl

theorem Breaks.nil (hopens : Template.opens cs = true) (h : ∀ name src rest, Action name src → cs ≠ src ++ rest) :
    Breaks [] cs where
  spelled := ⟨[], Written.nil.spelled, by simp [EndsClear]⟩
  opens := opens_iff.1 hopens
  malformed := by
    rintro name src hsrc ⟨rest, rfl⟩
    exact h name src rest hsrc rfl

theorem Breaks.action {name src : List Char} (hsrc : Action name src) (h : Breaks before rest) :
    Breaks (src ++ before) rest := by
  obtain ⟨segments, hs, hclear⟩ := h.spelled
  exact ⟨⟨_, (Written.var hsrc hs.written).spelled, endsClear_var.2 hclear⟩, h.opens, h.malformed⟩

theorem Breaks.text {t : List Char} (hne : t ≠ []) (hplain : Plain (t ++ (before ++ rest).take 1))
    (hopens : Template.opens (before ++ rest) = true) (h : Breaks before rest) : Breaks (t ++ before) rest := by
  obtain ⟨segments, hs, hclear⟩ := h.spelled
  obtain ⟨hplain, hborder⟩ := plain_append_take.1 hplain
  have hlast : t.getLast? ≠ some '\x7b' := by
    intro hopen
    obtain ⟨ds, hds⟩ := opens_iff.1 hopens
    exact hborder ⟨hopen, by rw [← hds]; rfl⟩
  -- were the next segment a text, the braces after this one would begin in it
  have hnext : ∀ s, segments.head? ≠ some (.text s) := by
    have hw := hs.written
    intro s hhead
    cases hw with
    | nil => simp at hhead
    | var => simp at hhead
    | @text t' cs segments hne' hplain' hlast' hnext' hw =>
      rw [List.append_assoc] at hopens
      refine not_opens_append hne' (plain_append_take.2 ⟨hplain', fun hopen => ?_⟩) hopens
      exact getLast?_ne_of_clear hlast' hclear hopen.1
  refine ⟨⟨.text (String.ofList t) :: segments, (Written.text hne hplain (fun _ => hlast) hnext hs.written).spelled,
    endsClear_text.2 ⟨fun _ => by simpa using hlast, hclear⟩⟩, h.opens, h.malformed⟩

theorem exists_breaks_of_error {offset : Nat} {e : TemplateError} (h : segmentsFrom offset cs = .error e) :
    ∃ before rest, cs = before ++ rest ∧ Breaks before rest ∧ e = .malformed (offset + Text.byteLength before) := by
  -- on the length, as the segments are read
  induction hn : cs.length using Nat.strongRecOn generalizing offset cs with
  | ind n ih =>
    cases begins cs with
    | done =>
      rw [segmentsFrom] at h
      cases h
    | malformed hopens hnone =>
      rw [segmentsFrom_malformed offset hopens hnone] at h
      cases h
      exact ⟨[], cs, rfl, .nil hopens hnone, rfl⟩
    | @action name src hsrc cs =>
      rw [segmentsFrom_action offset hsrc, ← fault?_eq_some, fault?_map, fault?_eq_some] at h
      have hpos : 0 < src.length := by
        cases hsrc
        exact Nat.succ_pos _
      obtain ⟨before, rest, rfl, hbreaks, rfl⟩ := ih cs.length (by rw [← hn, List.length_append]; omega) h rfl
      exact ⟨src ++ before, rest, (List.append_assoc ..).symm, hbreaks.action hsrc, by
        rw [Text.byteLength_append, Nat.add_assoc]⟩
    | @text t cs hne hplain hcs =>
      rw [segmentsFrom_text offset hne hplain hcs, ← fault?_eq_some, fault?_map, fault?_eq_some] at h
      have hpos : 0 < t.length := List.length_pos_iff.2 hne
      obtain ⟨before, rest, rfl, hbreaks, rfl⟩ := ih cs.length (by rw [← hn, List.length_append]; omega) h rfl
      have hopens : opens (before ++ rest) = true := by
        rcases hcs with hnil | hopens
        · rw [hnil, segmentsFrom] at h
          cases h
        · exact hopens
      exact ⟨t ++ before, rest, (List.append_assoc ..).symm, hbreaks.text hne hplain hopens, by
        rw [Text.byteLength_append, Nat.add_assoc]⟩

theorem Breaks.segmentsFrom (h : Breaks before rest) (offset : Nat) :
    segmentsFrom offset (before ++ rest) = .error (.malformed (offset + Text.byteLength before)) := by
  obtain ⟨segments, hs, hclear⟩ := h.spelled
  have hopens := opens_iff.2 h.opens
  have hnone : ∀ name src tail, Action name src → rest ≠ src ++ tail := fun name src tail hsrc heq =>
    h.malformed name src hsrc ⟨tail, heq.symm⟩
  rw [segmentsFrom_append hs.written hclear hopens, segmentsFrom_malformed _ hopens hnone]
  rfl

theorem parse_eq_error {s : String} {e : TemplateError} :
    parse s = .error e ↔ ∃ before rest, s.toList = before ++ rest ∧ Breaks before rest ∧
      e = .malformed (String.ofList before).utf8ByteSize := by
  unfold parse
  constructor
  · intro h
    obtain ⟨before, rest, hs, hbreaks, he⟩ := exists_breaks_of_error h
    exact ⟨before, rest, hs, hbreaks, by rw [he, Text.byteLength_eq, Nat.zero_add]⟩
  · rintro ⟨before, rest, hs, hbreaks, rfl⟩
    rw [hs, hbreaks.segmentsFrom, Text.byteLength_eq, Nat.zero_add]

end Failure

section Rendering

variable {lookup : String → Option String} {s : String}

theorem fill_eq_error {e : TemplateError} :
    fill lookup segments = .error e ↔ ∃ known name unread, segments = known ++ .var name :: unread ∧
      (∀ n, .var n ∈ known → (lookup n).isSome) ∧ lookup name = none ∧ e = .missing name := by
  constructor
  · intro h
    induction segments with
    | nil => cases h
    | cons segment segments ih =>
      cases segment with
      | text t =>
        rw [fill, ← fault?_eq_some, fault?_map, fault?_eq_some] at h
        obtain ⟨known, name, unread, rfl, hknown, hname, he⟩ := ih h
        exact ⟨.text t :: known, name, unread, rfl, by simpa using hknown, hname, he⟩
      | var n =>
        rw [fill] at h
        cases hn : lookup n with
        | none =>
          rw [hn] at h
          cases h
          exact ⟨[], n, segments, rfl, by simp, hn, rfl⟩
        | some v =>
          rw [hn, ← fault?_eq_some, fault?_map, fault?_eq_some] at h
          obtain ⟨known, name, unread, rfl, hknown, hname, he⟩ := ih h
          refine ⟨.var n :: known, name, unread, rfl, ?_, hname, he⟩
          intro m hm
          rcases List.mem_cons.1 hm with heq | hm
          · cases heq
            simp [hn]
          · exact hknown m hm
  · rintro ⟨known, name, unread, rfl, hknown, hname, rfl⟩
    induction known with
    | nil => simp [fill, hname]
    | cons segment known ih =>
      have hrest := ih fun n hn => hknown n (List.mem_cons_of_mem _ hn)
      cases segment with
      | text t =>
        rw [List.cons_append, fill, hrest]
        rfl
      | var n =>
        obtain ⟨v, hv⟩ := Option.isSome_iff_exists.1 (hknown n (List.mem_cons_self ..))
        rw [List.cons_append, fill, hv, hrest]
        rfl

theorem parse_eq_ok : parse s = .ok segments ↔ Spelled segments s.toList := by
  rw [spelled_iff]
  exact segmentsFrom_eq_ok 0

theorem render_eq_missing {name : String} :
    render lookup s = .error (.missing name) ↔ ∃ known unread, Spelled (known ++ .var name :: unread) s.toList ∧
      (∀ n, .var n ∈ known → (lookup n).isSome) ∧ lookup name = none := by
  unfold render
  cases hp : parse s with
  | error e =>
    obtain ⟨before, rest, -, -, rfl⟩ := parse_eq_error.1 hp
    refine iff_of_false nofun ?_
    rintro ⟨known, unread, hs, -⟩
    rw [parse_eq_ok.2 hs] at hp
    cases hp
  | ok segments =>
    refine fill_eq_error.trans ⟨?_, ?_⟩
    · rintro ⟨known, n, unread, rfl, hknown, hn, he⟩
      cases he
      exact ⟨known, unread, parse_eq_ok.1 hp, hknown, hn⟩
    · rintro ⟨known, unread, hs, hknown, hn⟩
      rw [parse_eq_ok.2 hs] at hp
      cases hp
      exact ⟨known, name, unread, rfl, hknown, hn, rfl⟩

theorem render_eq_malformed {offset : Nat} :
    render lookup s = .error (.malformed offset) ↔ parse s = .error (.malformed offset) := by
  unfold render
  cases hp : parse s with
  | error e => simp
  | ok segments =>
    refine iff_of_false (fun h => ?_) nofun
    obtain ⟨_, _, _, _, _, _, he⟩ := fill_eq_error.1 h
    cases he

end Rendering

/-- A text is a template just when it is the sources of segments, which are then the ones it is cut into. It fails
where a template ends and braces open no action. Rendering puts in the values of all variables, or fails with the
leftmost one that is unknown; a text that is no template fails as it does when it is cut, whatever is known. -/
theorem parse_render_grammar (s : String) :
    (∀ segments, parse s = .ok segments ↔ Spelled segments s.toList) ∧
      (∀ segments segments', Spelled segments s.toList → Spelled segments' s.toList → segments = segments') ∧
      (∀ e, parse s = .error e ↔ ∃ before rest, s.toList = before ++ rest ∧ Breaks before rest ∧
        e = .malformed (String.ofList before).utf8ByteSize) ∧
      ∀ lookup : String → Option String,
        (∀ r, render lookup s = .ok r ↔ ∃ segments, Spelled segments s.toList ∧
          (∀ name, .var name ∈ segments → (lookup name).isSome) ∧
            r = String.ofList (segments.flatMap (value lookup))) ∧
        (∀ name, render lookup s = .error (.missing name) ↔ ∃ known unread,
          Spelled (known ++ .var name :: unread) s.toList ∧ (∀ n, .var n ∈ known → (lookup n).isSome) ∧
            lookup name = none) ∧
        ∀ offset, render lookup s = .error (.malformed offset) ↔ parse s = .error (.malformed offset) := by
  refine ⟨fun _ => parse_eq_ok, fun segments segments' h h' => ?_, fun _ => parse_eq_error, fun lookup =>
    ⟨fun r => ?_, fun _ => render_eq_missing, fun _ => render_eq_malformed⟩⟩
  · exact Except.ok.inj ((parse_eq_ok.2 h).symm.trans (parse_eq_ok.2 h'))
  · simp only [spelled_iff]
    exact render_eq_ok

-- of three braces the first two open the action, and the offset counts bytes
example : parse "é\x7b\x7b .b \x7d\x7d\x7b\x7b\x7b.c\x7d\x7d" = .error (.malformed 10) := by decide +kernel

end Template

end Rollout
