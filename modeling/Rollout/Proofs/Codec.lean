import Rollout.Document.Decode
import Rollout.Document.Encode
import Rollout.Proofs.Fault
import Rollout.Proofs.Keyed
import Rollout.Proofs.Yaml.Scalar

/-! Each way of writing data with the reader that undoes it. A record is read back field by field: a field that is
written is read into the record, and one that is left out stays at what the reader starts from. -/

namespace Rollout

open Yaml Yaml.Decode Encode

variable {α β ε σ : Type}

/-- What `encode` writes of a value, `read` reads back as what `f` makes of it. -/
def Restores (read : Decoder β) (encode : α → Data) (f : α → β) : Prop :=
  ∀ a, read (.ofData (encode a)) = .ok (f a)

/-! ### Scalars -/

theorem restores_text : Restores text Data.text id := fun _ => rfl

theorem optional_of_kind (read : Decoder α) {style : Style} {s : String} {k : Kind}
    (hk : scalarKind? none style s = some k) (hn : k ≠ .null) :
    optional read (.scalar none style s) = (read (.scalar none style s)).map some := by
  cases style with
  | plain =>
    have hplain : plainKind s = k := Option.some.inj hk
    have hs : ¬ (s = "" ∨ isNullWord s) := by
      intro h
      rw [plainKind, if_pos h] at hplain
      exact hn hplain.symm
    rw [not_or] at hs
    simp [Yaml.Decode.optional, hs]
  | _ => rfl

theorem restores_optional_text : Restores (optional text) Data.text some :=
  fun s => optional_of_kind text (scalarKind?_styleOf s) (by decide)

theorem restores_optional_unsigned : Restores (optional unsigned) (fun n => .nat n.toNat) some := by
  intro n
  change optional unsigned (.scalar none .plain (toString (n.toNat : Int))) = .ok (some n)
  rw [optional_of_kind unsigned (scalarKind?_natCast n.toNat_lt) (by simp), unsigned, if_pos (Or.inl rfl),
    Text.toList_toString_natCast, natural?_toDigits]
  change Except.map some (if n.toNat < UInt64.size then _ else _) = _
  rw [if_pos n.toNat_lt, UInt64.ofNat_toNat]
  rfl

theorem restores_strictText : Restores Rollout.Decode.strictText Data.text id :=
  fun s => if_pos (scalarKind?_styleOf s)

theorem restores_portItem : Restores Rollout.Decode.portItem Encode.portItem id := by
  rintro (n | s)
  · have hle : n.toInt ≤ Int64.maxValue.toInt := Int64.toInt_le n
    change Rollout.Decode.portItem (.scalar none .plain (toString n.toInt)) = .ok (.number n)
    simp only [Rollout.Decode.portItem, scalarKind?_toInt, if_pos hle, Int64.ofInt_toInt]
  · change Rollout.Decode.portItem (.scalar none (styleOf s) s) = .ok (.text s)
    simp only [Rollout.Decode.portItem, scalarKind?_styleOf]

/-! ### Collections -/

theorem mapM_ofItems {read : Decoder α} {encode : α → Data} (h : Restores read encode id) (as : List α) :
    (Node.ofItems (as.map encode)).mapM read = .ok as := by
  induction as with
  | nil => rfl
  | cons a as ih =>
    rw [List.map_cons, Node.ofItems, List.mapM_cons, h a, ih]
    rfl

theorem restores_list {read : Decoder α} {encode : α → Data} (h : Restores read encode id) :
    Restores (list read) (fun as => .list (as.map encode)) id :=
  mapM_ofItems h

theorem restores_texts : Restores (list text) Data.texts id := restores_list restores_text

theorem keyedEntries_ofFields {read : Decoder β} {encode : α → Data} {f : α → β} (h : Restores read encode f)
    (es : List (String × α)) (m : Keyed β) :
    keyedEntries read m (Node.ofFields (es.map fun e => (e.1, encode e.2))) =
      .ok ((es.map fun e => (e.1, f e.2)).foldl (fun m e => m.insert e.1 e.2) m) := by
  induction es generalizing m with
  | nil => rfl
  | cons e es ih =>
    have hread := h e.2
    rw [List.map_cons, Node.ofFields, keyedEntries, Node.ofText, text, hread]
    exact ih _

theorem restores_keyed {read : Decoder β} {encode : α → Data} {f : α → β} (h : Restores read encode f) :
    Restores (keyed read) (Encode.keyed encode) (Keyed.map f) := by
  intro m
  have hput : (∅ : Keyed β).override (m.map f) = m.map f := by
    refine Keyed.ext_get? fun k => ?_
    rw [Keyed.get?_override]
    exact Option.or_none
  exact (keyedEntries_ofFields h m.entries ∅).trans (congrArg _ hput)

theorem restores_keyed_id {read : Decoder α} {encode : α → Data} (h : Restores read encode id) :
    Restores (keyed read) (Encode.keyed encode) id := by
  intro m
  exact (restores_keyed h m).trans (congrArg _ m.map_id)

/-! ### Values of several shapes -/

theorem survey_scalar {style : Style} {s : String} {k : Kind} (hk : scalarKind? none style s = some k)
    (hw : k ≠ .wide) (depth : Nat) : survey depth (.scalar none style s) = .ok () := by
  unfold survey
  rw [if_neg (by decide), hk]
  split
  · rename_i h
    cases h
  · rename_i h
    exact absurd (Option.some.inj h) hw
  · rfl

theorem survey_text (depth : Nat) (s : String) : survey depth (.ofData (.text s)) = .ok () :=
  survey_scalar (scalarKind?_styleOf s) (by decide) depth

theorem survey_portItem (depth : Nat) (p : PortItem) : survey depth (.ofData (Encode.portItem p)) = .ok () := by
  cases p with
  | number n => exact survey_scalar (scalarKind?_toInt n) (by simp) depth
  | text s => exact survey_text depth s

theorem survey_list {encode : α → Data} {depth : Nat} (hd : 0 < depth)
    (h : ∀ depth a, survey depth (.ofData (encode a)) = .ok ()) (as : List α) :
    survey depth (.ofData (.list (as.map encode))) = .ok () := by
  obtain ⟨depth, rfl⟩ := Nat.exists_eq_succ_of_ne_zero (Nat.ne_of_gt hd)
  have hitems : (Node.ofItems (as.map encode)).forM (survey depth) = .ok () := by
    induction as with
    | nil => rfl
    | cons a as ih => exact bind_eq_ok.2 ⟨(), h depth a, ih⟩
  exact hitems

theorem restores_labels {depth : Nat} (hd : 0 < depth) :
    Restores (Rollout.Decode.labels depth) Encode.labels id := by
  intro r
  cases r with
  | inline s =>
    have hread := congrArg (Except.map RawLabels.inline) (restores_strictText s)
    exact bind_eq_ok.2 ⟨(), survey_text depth s, hread⟩
  | list items =>
    have hread := congrArg (Except.map RawLabels.list) (mapM_ofItems restores_strictText items)
    exact bind_eq_ok.2 ⟨(), survey_list hd survey_text items, hread⟩

theorem restores_portList {depth : Nat} (hd : 0 < depth) :
    Restores (Rollout.Decode.portList depth) Encode.portList id := by
  intro p
  cases p with
  | single item =>
    refine bind_eq_ok.2 ⟨(), survey_portItem depth item, ?_⟩
    have hread := congrArg (Except.map PortList.single) (restores_portItem item)
    -- an item is a number or a text, so it is not taken for null
    cases item with
    | number n =>
      have hnull : scalarKind? none .plain (toString n.toInt) ≠ some .null := by
        rw [scalarKind?_toInt]
        simp
      exact (if_neg hnull).trans hread
    | text s =>
      have hnull : scalarKind? none (styleOf s) s ≠ some .null := by simp
      exact (if_neg hnull).trans hread
  | list items =>
    have hread := congrArg (Except.map PortList.list) (mapM_ofItems restores_portItem items)
    exact bind_eq_ok.2 ⟨(), survey_list hd survey_portItem items, hread⟩
  | empty => exact bind_eq_ok.2 ⟨(), survey_scalar (k := .null) rfl (by decide) depth, rfl⟩

/-! ### Variables -/

theorem Keyed.traverse_map {f : String → β → Except ε α} {g : α → β} (h : ∀ k a, f k (g a) = .ok a)
    (m : Keyed α) : (m.map g).traverse f = .ok m := by
  have hfault : fault? ((m.map g).traverse f) = none := by
    rw [Keyed.fault?_traverse, List.findSome?_eq_none_iff]
    intro e he
    obtain ⟨a, -, ha⟩ := Option.map_eq_some_iff.1 ((Keyed.get?_map g m e.1).symm.trans (Keyed.mem_entries.1 he))
    rw [← ha, h, fault?_ok]
  obtain ⟨r, hr⟩ := fault?_eq_none.1 hfault
  have hrm : r = m := by
    refine Keyed.ext_get? fun k => Option.ext fun a => ?_
    rw [Keyed.get?_of_traverse hr, Keyed.get?_map]
    simp [h]
  rw [hr, hrm]

theorem restores_value (depth : Nat) : Restores (Value.read depth) Data.text Value.text := by
  intro s
  change Value.read depth (.scalar none (styleOf s) s) = _
  simp [Value.read, ownTag?, Value.ofScalar, Value.ofKind]

theorem restores_vars : Restores Rollout.Decode.vars (Encode.keyed .text) id := by
  intro m
  have hvalues := restores_keyed (restores_value (depthLimit - 2)) m
  exact bind_eq_ok.2 ⟨some (m.map Value.text), congrArg (Except.map some) hvalues,
    Keyed.traverse_map (g := Value.text) (fun _ _ => rfl) m⟩

/-! ### Records -/

namespace Yaml.Decode

/-- Reading a field as it was written leads from one record to another; one that was left out changes nothing. -/
def Field.Restores (f : Field σ) (o : OptField) (s s' : σ) : Prop :=
  match o with
  | none => s' = s
  | some (name, data) => name = f.name ∧ f.read (.ofData data) s = .ok s'

/-- The fields of a record restore it one after the other. -/
inductive RestoresAll : List (Field σ) → List OptField → σ → σ → Prop
  | nil (s : σ) : RestoresAll [] [] s s
  | cons {f : Field σ} {fs : List (Field σ)} {o : OptField} {os : List OptField} {s s' s'' : σ} :
    f.Restores o s s' → RestoresAll fs os s' s'' → RestoresAll (f :: fs) (o :: os) s s''

theorem find?_name {f : Field σ} {read : List (Field σ)} (h : f.name ∉ read.map Field.name) (fs : List (Field σ)) :
    (read ++ [f] ++ fs).find? (·.name = f.name) = some f := by
  have hnone : read.find? (·.name = f.name) = none := by
    rw [List.find?_eq_none]
    intro g hg hname
    exact h (List.mem_map.2 ⟨g, hg, of_decide_eq_true hname⟩)
  simp [List.find?_append, hnone]

theorem recordFields_of_restores {fs : List (Field σ)} {os : List OptField} {s s' : σ} (h : RestoresAll fs os s s')
    (read : List (Field σ)) (hnodup : ((read ++ fs).map Field.name).Nodup) {seen : List String}
    (hseen : ∀ name ∈ seen, name ∈ read.map Field.name) :
    recordFields (read ++ fs) seen s (Node.ofFields (os.filterMap id)) = .ok s' := by
  -- `read` are the fields that were gone through; those of them that were written are in `seen`
  induction h generalizing read seen with
  | nil s => rfl
  | @cons f fs o os s s' s'' hf hfs ih =>
    have hassoc : read ++ f :: fs = (read ++ [f]) ++ fs := by simp
    rw [hassoc] at hnodup ⊢
    cases o with
    | none =>
      cases hf
      exact ih (read ++ [f]) hnodup fun name hname => by simp [hseen name hname]
    | some field =>
      obtain ⟨name, data⟩ := field
      obtain ⟨rfl, hread⟩ := hf
      have hnew : f.name ∉ read.map Field.name := by
        simp only [List.map_append, List.nodup_append] at hnodup
        intro h
        exact hnodup.1.2.2 _ h _ List.mem_cons_self rfl
      have hunseen : ¬ seen.contains f.name := by
        rw [List.contains_iff_mem]
        exact fun h => hnew (hseen _ h)
      refine bind_eq_ok.2 ⟨f.name, rfl, ?_⟩
      simp only [find?_name hnew fs]
      refine (if_neg hunseen).trans (bind_eq_ok.2 ⟨s', hread, ?_⟩)
      refine ih (read ++ [f]) hnodup fun name hname => ?_
      rcases List.mem_cons.1 hname with rfl | hname
      · simp
      · simp [hseen name hname]

/-- A record whose fields have different names is what its fields restore. -/
theorem record_of_restores {fields : List (Field σ)} {os : List OptField} {init s : σ}
    (hnodup : (fields.map Field.name).Nodup) (h : RestoresAll fields os init s) :
    record fields init (.ofData (Encode.fields os)) = .ok s :=
  recordFields_of_restores h [] hnodup (by simp)

end Yaml.Decode

/-! ### Fields -/

section Fields

variable {name : String} {s : σ}

theorem restores_some {read : Decoder α} {set : σ → α → σ} {data : Data} {v : α}
    (h : read (.ofData data) = .ok v) : (field name read set).Restores (some (name, data)) s (set s v) :=
  ⟨rfl, congrArg (Except.map (set s)) h⟩

/-- A field that may be left out, where the record starts without it. -/
theorem restores_map {read : Decoder (Option α)} {set : σ → Option α → σ} {encode : α → Data}
    (h : Restores read encode some) (v : Option α) (hs : set s none = s) :
    (field name read set).Restores (v.map fun a => (name, encode a)) s (set s v) := by
  cases v with
  | none => exact hs
  | some a => exact restores_some (h a)

theorem restores_optText {set : σ → Option String → σ} (v : Option String) (hs : set s none = s) :
    (field name (optional text) set).Restores (optText name v) s (set s v) :=
  restores_map restores_optional_text v hs

/-- A field that is left out for some value, where the record starts with what that value is read as. -/
theorem restores_unless {read : Decoder β} {set : σ → β → σ} {encode : α → Data} {f : α → β} {v : α} {void : Bool}
    (h : Restores read encode f) (hs : void → set s (f v) = s) :
    (field name read set).Restores (if void then none else some (name, encode v)) s (set s (f v)) := by
  cases void with
  | true => exact hs rfl
  | false => exact restores_some (h v)

theorem restores_textList {set : σ → List String → σ} (v : List String) (hs : set s [] = s) :
    (field name (list text) set).Restores (Encode.texts name v) s (set s v) := by
  refine restores_unless restores_texts fun hv => ?_
  rw [List.isEmpty_iff.1 hv]
  exact hs

theorem restores_optKeyed {read : Decoder (Keyed β)} {set : σ → Keyed β → σ} {encode : α → Data}
    {f : Keyed α → Keyed β} (h : Restores read (Encode.keyed encode) f) (m : Keyed α) (hs : set s (f ∅) = s) :
    (field name read set).Restores (optKeyed name encode m) s (set s (f m)) := by
  refine restores_unless h fun hm => ?_
  rw [Keyed.eq_empty_of_isEmpty hm]
  exact hs

end Fields

end Rollout
