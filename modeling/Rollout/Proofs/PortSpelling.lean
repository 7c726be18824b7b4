import Rollout.Proofs.Fault
import Rollout.Proofs.PortGrammar

/-! The spellings of a port list. A list is parsed item by item and a text entry by entry, so that only the entries and
their order count: not how they are spread over items, not what is blank, and not whether a lone number is written as
a text. Ports are printed as entries that give them back. -/

namespace Rollout

def ExposedPort.Valid (p : ExposedPort) : Prop :=
  Port.InRange p.host.toNat ∧ Port.InRange p.container.toNat

namespace PortItem

/-- White space and commas only. -/
def Blank (s : String) : Prop := ∀ c ∈ s.toList, c = ',' ∨ Text.isBlank c = true

theorem entries_join (a b : String) : entries (a ++ "," ++ b) = entries a ++ entries b := by
  unfold entries
  refine Text.tokens_append (c := ',') rfl ?_
  simp

theorem entries_eq_nil {s : String} : entries s = [] ↔ Blank s := by
  unfold entries Blank
  rw [Text.tokens_eq_nil]
  simp only [beq_iff_eq]

theorem entries_of_solid {s : String} (hne : s.toList ≠ [])
    (h : ∀ c ∈ s.toList, c ≠ ',' ∧ ¬ Text.isBlank c = true) : entries s = [s] := by
  refine Text.tokens_of_solid hne fun c hc => ?_
  simpa using h c hc

theorem parse_join (a b : String) :
    (text (a ++ "," ++ b)).parse = do
      let ps ← (text a).parse
      let qs ← (text b).parse
      return ps ++ qs := by
  simp only [parse, entries_join, List.mapM_append]

theorem parse_blank {s : String} (h : Blank s) : (text s).parse = .ok [] := by
  rw [parse, entries_eq_nil.2 h]
  rfl

theorem parse_of_entries {s : String} (h : entries s = [s]) :
    (text s).parse = (Port.parseEntry s).map fun p => [p] := by
  rw [parse, h, List.mapM_cons]
  cases Port.parseEntry s <;> rfl

end PortItem

namespace PortList

open PortItem

/-! ### Lists of items -/

theorem parse_append (xs ys : List PortItem) :
    (list (xs ++ ys)).parse = do
      let ps ← (list xs).parse
      let qs ← (list ys).parse
      return ps ++ qs := by
  unfold parse items
  rw [List.mapM_append]
  cases xs.mapM PortItem.parse with
  | error e => rfl
  | ok pss =>
    cases ys.mapM PortItem.parse with
    | error e => rfl
    | ok qss => exact congrArg Except.ok List.flatten_append

theorem parse_singleton (item : PortItem) : (list [item]).parse = item.parse := by
  unfold parse items
  rw [List.mapM_cons]
  cases item.parse with
  | error e => rfl
  | ok ps => exact congrArg Except.ok (List.append_nil ps)

theorem parse_single (item : PortItem) : (single item).parse = item.parse := parse_singleton item

theorem parse_cons (item : PortItem) (items : List PortItem) :
    (list (item :: items)).parse = do
      let ps ← item.parse
      let qs ← (list items).parse
      return ps ++ qs := by
  rw [← parse_singleton, ← parse_append]
  rfl

/-- Items that are parsed alike may stand for one another anywhere. -/
theorem parse_replace {xs ys : List PortItem} (h : (list xs).parse = (list ys).parse) (before after : List PortItem) :
    (list (before ++ (xs ++ after))).parse = (list (before ++ (ys ++ after))).parse := by
  rw [parse_append, parse_append xs, h, ← parse_append ys, ← parse_append]

theorem parse_join_items (a b : String) :
    (list [text a, text b]).parse = (list [text (a ++ "," ++ b)]).parse := by
  rw [parse_cons, parse_singleton, parse_singleton, parse_join]

theorem parse_blank_item {s : String} (h : Blank s) : (list [text s]).parse = (list []).parse := by
  rw [parse_singleton, parse_blank h]
  rfl

/-- Only its entries count in a text. -/
theorem parse_same_entries {s t : String} (h : entries s = entries t) (before after : List PortItem) :
    (list (before ++ text s :: after)).parse = (list (before ++ text t :: after)).parse := by
  have hitem : (list [text s]).parse = (list [text t]).parse := by
    rw [parse_singleton, parse_singleton, PortItem.parse, PortItem.parse, h]
  exact parse_replace hitem before after

/-- A text joined by commas is parsed as the list of its parts. -/
theorem parse_intercalate (parts : List String) :
    (single (text (",".intercalate parts))).parse = (list (parts.map text)).parse := by
  induction parts with
  | nil => rfl
  | cons a parts ih =>
    cases parts with
    | nil => exact congrArg (fun s => (single (text s)).parse) String.intercalate_singleton
    | cons b parts =>
      rw [parse_single] at ih ⊢
      rw [String.intercalate_cons_cons, parse_join, ih]
      exact (parse_cons (text a) ((b :: parts).map text)).symm

end PortList

namespace Port

/-! ### Numbers in digits -/

theorem numeral_toDigits (n : Nat) : Numeral (Nat.toDigits 10 n) n :=
  ⟨Nat.toDigits_ne_nil, fun _ => Text.isDigit_of_mem_toDigits, Nat.ofDigitChars_ten_toDigits⟩

theorem solid_of_isDigit {c : Char} (h : c.isDigit = true) : c ≠ ',' ∧ ¬ Text.isBlank c = true := by
  refine ⟨?_, ?_⟩
  · rintro rfl
    exact absurd h (by decide)
  · simp only [Char.isDigit, Bool.and_eq_true, decide_eq_true_eq] at h
    have hge : 48 ≤ c.toNat := h.1
    have hle : c.toNat ≤ 57 := h.2
    exact Text.not_isBlank_of_visible (by omega) (by omega)

theorem solid_of_isLower {c : Char} (h : c.isLower = true) : c ≠ ',' ∧ ¬ Text.isBlank c = true := by
  refine ⟨?_, ?_⟩
  · rintro rfl
    exact absurd h (by decide)
  · obtain ⟨hge, hle, -⟩ := Text.toNat_toUpper h
    exact Text.not_isBlank_of_visible (by omega) (by omega)

/-- The digits of a number, after a sign or not, hold nothing to cut or trim. -/
theorem solid_toString {n : Int} {c : Char} (h : c ∈ (toString n).toList) : c ≠ ',' ∧ ¬ Text.isBlank c = true := by
  by_cases hn : 0 ≤ n
  · obtain ⟨k, rfl⟩ := Int.eq_ofNat_of_zero_le hn
    rw [Text.toList_toString_natCast] at h
    exact solid_of_isDigit (Text.isDigit_of_mem_toDigits h)
  · rw [Text.toList_toString_neg hn] at h
    rcases List.mem_cons.1 h with rfl | h
    · decide
    · exact solid_of_isDigit (Text.isDigit_of_mem_toDigits h)

theorem fields?_toString (n : Int) :
    fields? (toString n).toList = if 0 ≤ n ∧ n ≤ 65535 then some (n.toNat, n.toNat, .tcp) else none := by
  by_cases hn : 0 ≤ n
  · obtain ⟨k, rfl⟩ := Int.eq_ofNat_of_zero_le hn
    have hnumber : number? (Nat.toDigits 10 k ++ []) = _ := number?_append (numeral_toDigits k) (by simp)
    rw [List.append_nil] at hnumber
    rw [Text.toList_toString_natCast, fields?, hnumber]
    by_cases hk : k ≤ 65535
    · rw [if_pos hk, if_pos (by omega)]
      rfl
    · rw [if_neg hk, if_neg (by omega)]
  · -- a sign is no digit
    have hsign : ∀ cs, number? ('-' :: cs) = none := fun cs => rfl
    rw [Text.toList_toString_neg hn, fields?, hsign, if_neg (by omega)]

theorem parseEntry_toString (n : Int) :
    parseEntry (toString n) =
      if 1 ≤ n ∧ n ≤ 65535 then .ok ⟨UInt16.ofNat n.toNat, UInt16.ofNat n.toNat, .tcp⟩
      else .error ⟨toString n, if n = 0 then .outOfRange else .malformed⟩ := by
  have htrim : Text.trimList (toString n).toList = (toString n).toList :=
    Text.trimList_of_not_blank fun c hc => (solid_toString hc).2
  rw [parseEntry, htrim, fields?_toString]
  by_cases hrange : 0 ≤ n ∧ n ≤ 65535
  · simp only [if_pos hrange]
    by_cases hzero : n = 0
    · subst hzero
      rfl
    · rw [if_neg (by omega), if_pos (by omega)]
  · simp only [if_neg hrange]
    rw [if_neg (by omega), if_neg (by omega)]

/-! ### Printed ports -/

theorem toList_text (p : ExposedPort) :
    p.text.toList = Nat.toDigits 10 p.host.toNat ++
      ':' :: (Nat.toDigits 10 p.container.toNat ++ '/' :: p.protocol.name.toList) := by
  simp [ExposedPort.text, Nat.toString_eq_repr]

theorem entry_text (p : ExposedPort) : Entry p.text.toList p.host.toNat p.container.toNat p.protocol := by
  rw [toList_text]
  refine .pair (numeral_toDigits _) (numeral_toDigits _) (.named ?_)
  exact List.forall₂_same.2 fun c _ => .inl rfl

theorem solid_text {p : ExposedPort} {c : Char} (h : c ∈ p.text.toList) : c ≠ ',' ∧ ¬ Text.isBlank c = true := by
  rw [toList_text] at h
  simp only [List.mem_append, List.mem_cons] at h
  rcases h with h | rfl | h | rfl | h
  · exact solid_of_isDigit (Text.isDigit_of_mem_toDigits h)
  · decide
  · exact solid_of_isDigit (Text.isDigit_of_mem_toDigits h)
  · decide
  · exact solid_of_isLower (isLower_of_mem_name h)

theorem parseEntry_text {p : ExposedPort} (h : p.Valid) : parseEntry p.text = .ok p := by
  refine parseEntry_eq_ok.2 ⟨⟨p.text.toList, ?_, entry_text p⟩, h⟩
  exact Text.trims_iff.2 (Text.trimList_of_not_blank fun c hc => (solid_text hc).2)

theorem valid_of_ofNumber {n : Int64} {p : ExposedPort} (h : ofNumber n = .ok p) : p.Valid := by
  unfold ofNumber at h
  split at h
  · rename_i hn
    cases h
    have hport : (UInt16.ofNat n.toInt.toNat).toNat = n.toInt.toNat :=
      UInt16.toNat_ofNat_of_lt' (by change n.toInt.toNat < 65536; omega)
    have hrange : InRange (UInt16.ofNat n.toInt.toNat).toNat := by
      rw [hport]
      exact ⟨by omega, by omega⟩
    exact ⟨hrange, hrange⟩
  · cases h

end Port

namespace PortList

open PortItem Port

theorem parse_printed {p : ExposedPort} (h : p.Valid) : (text p.text).parse = .ok [p] := by
  have hne : p.text.toList ≠ [] := by simp [toList_text]
  rw [parse_of_entries (entries_of_solid hne fun c => solid_text), parseEntry_text h]
  rfl

theorem valid_of_parse {l : PortList} {ps : List ExposedPort} (h : l.parse = .ok ps) : ∀ p ∈ ps, p.Valid := by
  intro p hp
  obtain ⟨pss, hpss, rfl⟩ := map_eq_ok.1 h
  obtain ⟨qs, hqs, hp⟩ := List.mem_flatten.1 hp
  obtain ⟨item, -, hitem⟩ := exists_of_mem_mapM hpss hqs
  cases item with
  | number n =>
    obtain ⟨q, hq, rfl⟩ := map_eq_ok.1 hitem
    rw [List.mem_singleton.1 hp]
    exact valid_of_ofNumber hq
  | text s =>
    obtain ⟨entry, -, hentry⟩ := exists_of_mem_mapM hitem hp
    exact (parseEntry_eq_ok.1 hentry).2

theorem parse_printed_list {ps : List ExposedPort} (h : ∀ p ∈ ps, p.Valid) :
    (list (ps.map fun p => text p.text)).parse = .ok ps := by
  induction ps with
  | nil => rfl
  | cons p ps ih =>
    rw [List.map_cons, parse_cons, parse_printed (h p List.mem_cons_self),
      ih fun q hq => h q (List.mem_cons_of_mem p hq)]
    rfl

/-- A number out of range is malformed as a text, unless it is zero. -/
theorem parse_digits (n : Int64) :
    (∃ p, (single (number n)).parse = .ok [p] ∧ (single (text (toString n.toInt))).parse = .ok [p]) ∨
    ∃ e e', (single (number n)).parse = .error e ∧ (single (text (toString n.toInt))).parse = .error e' ∧
      e.spec = toString n.toInt ∧ e'.spec = e.spec := by
  have hentries : entries (toString n.toInt) = [toString n.toInt] :=
    entries_of_solid (Text.toList_toString_ne_nil _) fun c => solid_toString
  rw [parse_single, parse_single, parse_of_entries hentries, parseEntry_toString, PortItem.parse, ofNumber]
  by_cases hn : 1 ≤ n.toInt ∧ n.toInt ≤ 65535
  · rw [if_pos hn, if_pos hn]
    exact .inl ⟨_, rfl, rfl⟩
  · rw [if_neg hn, if_neg hn]
    exact .inr ⟨_, _, rfl, rfl, rfl, rfl⟩

/-- All ports that are parsed are in range, and ports in range are printed as they are parsed: one by one, as the items
of a list, or with commas between them in one text. -/
theorem ports_reparse :
    (∀ entry p, parseEntry entry = .ok p → p.Valid) ∧
    (∀ n p, ofNumber n = .ok p → p.Valid) ∧
    (∀ (l : PortList) ps, l.parse = .ok ps → ∀ p ∈ ps, p.Valid) ∧
    (∀ p : ExposedPort, p.Valid → parseEntry p.text = .ok p) ∧
    ∀ (l : PortList) ps, l.parse = .ok ps →
      (list (ps.map fun p => text p.text)).parse = .ok ps ∧
      (single (text (",".intercalate (ps.map ExposedPort.text)))).parse = .ok ps := by
  refine ⟨fun entry p h => (parseEntry_eq_ok.1 h).2, fun n p => valid_of_ofNumber, fun l ps => valid_of_parse,
    fun p => parseEntry_text, fun l ps h => ?_⟩
  have hlist := parse_printed_list (valid_of_parse h)
  refine ⟨hlist, ?_⟩
  rw [parse_intercalate, List.map_map]
  exact hlist

example : (list [number 80, text "0053:5353/UDP ,, 443"]).parse =
    .ok [⟨80, 80, .tcp⟩, ⟨53, 5353, .udp⟩, ⟨443, 443, .tcp⟩] := by decide +kernel

/-- A list is parsed part by part, the leftmost error first. An item alone is a list of one, texts may be joined by
commas, what is blank does not count, and a number is parsed as its digits are, but for the wording of the error. -/
theorem spellings_agree :
    (∀ xs ys, (list (xs ++ ys)).parse = do
      let ps ← (list xs).parse
      let qs ← (list ys).parse
      return ps ++ qs) ∧
    (∀ item, (single item).parse = (list [item]).parse) ∧
    (∀ before after a b, (list (before ++ text a :: text b :: after)).parse =
      (list (before ++ text (a ++ "," ++ b) :: after)).parse) ∧
    (∀ before after blank, Blank blank →
      (list (before ++ text blank :: after)).parse = (list (before ++ after)).parse ∧
      (∀ a, (list (before ++ text (a ++ "," ++ blank) :: after)).parse = (list (before ++ text a :: after)).parse) ∧
      (∀ b, (list (before ++ text (blank ++ "," ++ b) :: after)).parse = (list (before ++ text b :: after)).parse) ∧
      ∀ a b, (list (before ++ text (a ++ "," ++ blank ++ "," ++ b) :: after)).parse =
        (list (before ++ text (a ++ "," ++ b) :: after)).parse) ∧
    ∀ n : Int64,
      (∃ p, (single (number n)).parse = .ok [p] ∧ (single (text (toString n.toInt))).parse = .ok [p]) ∨
      ∃ e e', (single (number n)).parse = .error e ∧ (single (text (toString n.toInt))).parse = .error e' ∧
        e.spec = toString n.toInt ∧ e'.spec = e.spec := by
  refine ⟨parse_append, fun item => rfl, fun before after a b => ?_, fun before after blank h => ⟨?_, ?_, ?_, ?_⟩,
    parse_digits⟩
  · exact parse_replace (parse_join_items a b) before after
  · exact parse_replace (parse_blank_item h) before after
  · exact fun a => parse_same_entries (by rw [entries_join, entries_eq_nil.2 h, List.append_nil]) before after
  · exact fun b => parse_same_entries (by rw [entries_join, entries_eq_nil.2 h, List.nil_append]) before after
  · intro a b
    refine parse_same_entries ?_ before after
    rw [entries_join, entries_join, entries_eq_nil.2 h, List.append_nil, entries_join]

end PortList

end Rollout
