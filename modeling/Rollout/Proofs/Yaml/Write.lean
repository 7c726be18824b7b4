import Rollout.Proofs.Text
import Rollout.Yaml.Write

/-! Writing only adds. What a pen has written stays in front of all that it writes later, so the text of a mapping
holds the mark of its first key, or the braces that stand for no keys: it is never blank. -/

namespace Rollout

namespace Yaml

namespace Pen

/-- The later pen has kept the text of the earlier one and may have added to it. -/
def Grows (p q : Pen) : Prop := p.text.toList <+: q.text.toList

theorem Grows.refl (p : Pen) : p.Grows p := List.prefix_refl _

theorem Grows.trans {p q r : Pen} (h : p.Grows q) (h' : q.Grows r) : p.Grows r := List.IsPrefix.trans h h'

theorem Grows.mem {p q : Pen} (h : p.Grows q) {c : Char} (hc : c ∈ p.text.toList) : c ∈ q.text.toList :=
  h.subset hc

theorem toList_put (p : Pen) (c : Char) : (p.put c).text.toList = p.text.toList ++ [c] := String.toList_push c

theorem toList_newline (p : Pen) (c : Char) : (p.newline c).text.toList = p.text.toList ++ [c] :=
  String.toList_push c

theorem grows_put (p : Pen) (c : Char) : p.Grows (p.put c) := by
  rw [Grows, toList_put]
  exact List.prefix_append _ _

theorem grows_newline (p : Pen) (c : Char) : p.Grows (p.newline c) := by
  rw [Grows, toList_newline]
  exact List.prefix_append _ _

theorem toList_putAll (p : Pen) (cs : List Char) : (p.putAll cs).text.toList = p.text.toList ++ cs := by
  induction cs generalizing p with
  | nil => simp [putAll]
  | cons c cs ih =>
    change ((p.put c).putAll cs).text.toList = _
    rw [ih, toList_put, List.append_assoc, List.singleton_append]

theorem grows_putAll (p : Pen) (cs : List Char) : p.Grows (p.putAll cs) := by
  rw [Grows, toList_putAll]
  exact List.prefix_append _ _

theorem grows_ite {p q r : Pen} {P : Prop} [Decidable P] (hq : p.Grows q) (hr : p.Grows r) :
    p.Grows (if P then q else r) := by
  split
  · exact hq
  · exact hr

theorem grows_indent (p : Pen) (n : Nat) : p.Grows (p.indent n) :=
  (grows_ite (p.grows_newline '\n') (.refl p)).trans (grows_putAll _ _)

theorem grows_indicator (p : Pen) (s : String) (blank nests : Bool) : p.Grows (p.indicator s blank nests) :=
  (grows_ite (.refl p) (p.grows_put ' ')).trans (grows_putAll _ _)

theorem grows_attach (p : Pen) (s : String) : p.Grows (p.attach s) := p.grows_putAll _

theorem mem_attach (p : Pen) {s : String} {c : Char} (hc : c ∈ s.toList) : c ∈ (p.attach s).text.toList := by
  rw [attach, toList_putAll]
  exact List.mem_append_right _ hc

theorem mem_indicator (p : Pen) {s : String} {c : Char} (hc : c ∈ s.toList) (blank nests : Bool) :
    c ∈ (p.indicator s blank nests).text.toList := by
  rw [indicator, toList_putAll]
  exact List.mem_append_right _ hc

end Pen

open Pen

theorem grows_singleBody (n : Nat) (broke : Bool) (p : Pen) (cs : List Char) :
    p.Grows (singleBody n broke p cs) := by
  induction cs generalizing broke p with
  | nil => exact grows_ite (p.grows_indent n) (.refl p)
  | cons c cs ih =>
    unfold singleBody
    split
    · exact (p.grows_put c).trans (ih _ _)
    · split
      · refine .trans ?_ (ih _ _)
        exact (grows_ite (p.grows_newline '\n') (.refl p)).trans (grows_newline _ c)
      · refine .trans ?_ (ih _ _)
        have hindent : p.Grows (if broke then p.indent n else p) := grows_ite (p.grows_indent n) (.refl p)
        exact hindent.trans ((grows_ite (grows_put _ c) (.refl _)).trans (grows_put _ c))

theorem grows_literalBody (n : Nat) (broke : Bool) (p : Pen) (cs : List Char) :
    p.Grows (literalBody n broke p cs) := by
  induction cs generalizing broke p with
  | nil => exact .refl p
  | cons c cs ih =>
    unfold literalBody
    split
    · refine .trans ?_ (ih _ _)
      exact p.grows_newline c
    · refine .trans ?_ (ih _ _)
      exact (grows_ite (p.grows_indent n) (.refl p)).trans (grows_put _ c)

theorem grows_writeScalar (n : Nat) (style : Style) (s : String) (p : Pen) : p.Grows (writeScalar n style s p) := by
  cases style with
  | plain => exact (grows_ite (.refl p) (p.grows_put ' ')).trans (grows_putAll _ _)
  | singleQuoted =>
    exact ((p.grows_indicator "'" false false).trans (grows_singleBody n false _ _)).trans (grows_attach _ _)
  | doubleQuoted =>
    exact ((p.grows_indicator "\"" false false).trans (grows_putAll _ _)).trans (grows_attach _ _)
  | literal | folded =>
    refine .trans ?_ (grows_literalBody n true _ s.toList)
    exact ((p.grows_indicator "|" false false).trans (grows_putAll _ _)).trans (grows_newline _ '\n')

mutual

theorem grows_writeNode (outer : Option Nat) (field : Bool) (n : Node) (p : Pen) :
    p.Grows (writeNode outer field n p) := by
  match n with
  | .scalar _ style s => exact grows_writeScalar _ style s p
  | .sequence _ [] => exact (p.grows_indicator "[" true false).trans (grows_attach _ _)
  | .sequence _ (item :: items) => exact grows_writeItems _ (item :: items) p
  | .mapping _ [] => exact (p.grows_indicator _ true false).trans (grows_attach _ _)
  | .mapping _ (e :: es) => exact grows_writeFields _ (e :: es) p
  | .alias _ => exact .refl p

theorem grows_writeItems (n : Nat) (items : List Node) (p : Pen) : p.Grows (writeItems n items p) := by
  match items with
  | [] => exact .refl p
  | item :: items =>
    have hitem := grows_writeNode (some n) false item ((p.indent n).indicator "-" false true)
    exact (((p.grows_indent n).trans (grows_indicator _ _ _ _)).trans hitem).trans (grows_writeItems n items _)

theorem grows_writeFields (n : Nat) (es : List (Node × Node)) (p : Pen) : p.Grows (writeFields n es p) := by
  match es with
  | [] => exact .refl p
  | (k, v) :: es =>
    have hsimple := (grows_writeNode (some n) true k (p.indent n)).trans (grows_attach _ ":")
    have hlong := ((grows_indicator (p.indent n) "?" false true).trans
      (grows_writeNode (some n) true k _)).trans ((grows_indent _ n).trans (grows_indicator _ ":" false true))
    have hkey := (p.grows_indent n).trans (grows_ite (P := isSimpleKey k) hsimple hlong)
    exact (hkey.trans (grows_writeNode (some n) true v _)).trans (grows_writeFields n es _)

end

theorem colon_mem_writeFields (n : Nat) (e : Node × Node) (es : List (Node × Node)) (p : Pen) :
    ':' ∈ (writeFields n (e :: es) p).text.toList := by
  obtain ⟨k, v⟩ := e
  refine ((grows_writeNode (some n) true v _).trans (grows_writeFields n es _)).mem ?_
  split
  · exact mem_attach _ (by decide)
  · exact mem_indicator _ (by decide) _ _

/-- The text of a mapping holds a colon or a brace, so it is more than white space. -/
theorem trimList_write_mapping (tag : Option Tag) (es : List (Node × Node)) :
    Text.trimList (write (.mapping tag es)).toList ≠ [] := by
  intro hblank
  cases es with
  | nil =>
    have hopen := mem_indicator (c := '\x7b') {} (s := "\x7b") (by decide) true false
    have hmem := (grows_indent _ 0).mem ((grows_attach _ "\x7d").mem hopen)
    exact absurd (Text.trimList_eq_nil.1 hblank _ hmem) (by decide)
  | cons e es =>
    have hmem := (grows_indent _ 0).mem (colon_mem_writeFields 0 e es {})
    exact absurd (Text.trimList_eq_nil.1 hblank _ hmem) (by decide)

end Yaml

end Rollout
