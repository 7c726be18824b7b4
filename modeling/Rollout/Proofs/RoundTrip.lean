import Rollout.Proofs.Codec
import Rollout.Proofs.Yaml.Write

/-! Documents are read back as they were written. Of what they declare the written form hides one thing: labels that
denote no label at all are left out, whatever their spelling, and come back as the empty list. -/

namespace Rollout

open Yaml Yaml.Decode Encode

/-! ### What the written form shows -/

def RawLabels.shown (r : RawLabels) : RawLabels := if r.isEmpty then .list [] else r

def Decl.Instance.shown (i : Decl.Instance) : Decl.Instance := { i with labels := i.labels.shown }

def Decl.Job.shown (j : Decl.Job) : Decl.Job := { j with instanceLabels := j.instanceLabels.shown }

/-- What is left of a document in its written form. Overrides are a matter of how it was put together and are not
written. -/
def Document.shown (d : Document) : Document :=
  { d with
    instances := d.instances.map Decl.Instance.shown
    jobs := d.jobs.map Decl.Job.shown
    overrides := [] }

theorem RawLabels.isEmpty_shown (r : RawLabels) : r.shown.isEmpty = r.isEmpty := by
  unfold shown
  split
  · rename_i h
    rw [h]
    rfl
  · rfl

theorem optLabels_shown (name : String) (r : RawLabels) : optLabels name r.shown = optLabels name r := by
  unfold optLabels
  rw [r.isEmpty_shown]
  split
  · rfl
  · rename_i h
    rw [RawLabels.shown, if_neg h]

theorem optKeyed_map {α β : Type} {encode : β → Data} {f : α → β} {encode' : α → Data}
    (h : ∀ a, encode (f a) = encode' a) (name : String) (m : Keyed α) :
    optKeyed name encode (m.map f) = optKeyed name encode' m := by
  have hempty : (m.map f).isEmpty = m.isEmpty := List.isEmpty_map
  have hkeyed : Encode.keyed encode (m.map f) = Encode.keyed encode' m := by
    simp [Encode.keyed, Keyed.map, Keyed.mapWithKey, h]
  rw [optKeyed, optKeyed, hempty, hkeyed]

theorem Decl.Instance.encode_shown (i : Decl.Instance) : i.shown.encode = i.encode := by
  simp only [Decl.Instance.encode, Decl.Instance.fields, Decl.Instance.shown, optLabels_shown]

theorem Decl.Job.encode_shown (j : Decl.Job) : j.shown.encode = j.encode := by
  simp only [Decl.Job.encode, Decl.Job.fields, Decl.Job.shown, optLabels_shown]

/-- The written form shows all that it depends on. -/
theorem Document.encode_shown (d : Document) : d.shown.encode = d.encode := by
  simp only [Document.encode, Document.shown, optKeyed_map Decl.Instance.encode_shown,
    optKeyed_map Decl.Job.encode_shown]

/-! ### Reading declarations back -/

theorem restores_optLabels {σ : Type} {name : String} {s : σ} {set : σ → RawLabels → σ} {depth : Nat}
    (hd : 0 < depth) (r : RawLabels) (hs : set s (.list []) = s) :
    (field name (Rollout.Decode.labels depth) set).Restores (optLabels name r) s (set s r.shown) := by
  unfold optLabels RawLabels.shown
  split
  · exact hs
  · exact restores_some (restores_labels hd r)

theorem Decl.Disk.restores : Restores Decl.Disk.decode Decl.Disk.encode id := fun d =>
  record_of_restores (by decide) <|
    .cons (restores_optText d.cloud rfl) <| .cons (restores_optText d.diskType rfl) <|
    .cons (restores_map restores_optional_unsigned d.sizeGb rfl) <| .nil _

theorem Decl.Instance.restores : Restores Decl.Instance.decode Decl.Instance.encode Decl.Instance.shown := fun i =>
  record_of_restores (by decide) <|
    .cons (restores_optText i.cloud rfl) <| .cons (restores_optText i.project rfl) <|
    .cons (restores_optText i.zone rfl) <| .cons (restores_optText i.machineType rfl) <|
    .cons (restores_optText i.image rfl) <| .cons (restores_optLabels (by decide) i.labels rfl) <|
    .cons (restores_optKeyed (restores_keyed_id (restores_keyed_id restores_text)) i.volumes rfl) <| .nil _

theorem Decl.Artifact.restores : Restores Decl.Artifact.decode Decl.Artifact.encode id := fun a =>
  record_of_restores (by decide) <|
    .cons (restores_optText a.project rfl) <| .cons (restores_optText a.repository rfl) <|
    .cons (restores_optText a.build rfl) <| .cons (restores_optText a.tag rfl) <| .nil _

theorem Decl.Image.restores : Restores Decl.Image.decode Decl.Image.encode id := fun i =>
  record_of_restores (by decide) <|
    .cons (restores_optText i.dockerfile rfl) <| .cons (restores_optText i.repository rfl) <|
    .cons (restores_optText i.tag rfl) <| .cons (restores_textList i.artifacts rfl) <| .nil _

theorem Decl.Container.restores : Restores Decl.Container.decode Decl.Container.encode id := fun c =>
  record_of_restores (by decide) <|
    .cons (restores_optText c.image rfl) <| .cons (restores_optText c.command rfl) <|
    .cons (restores_textList c.ssh rfl) <| .cons (restores_textList c.environment rfl) <| .nil _

theorem Decl.Job.restores : Restores Decl.Job.decode Decl.Job.encode Decl.Job.shown := fun j =>
  record_of_restores (by decide) <|
    .cons (restores_some (restores_text j.container)) <|
    .cons (restores_optLabels (by decide) j.instanceLabels rfl) <| .nil _

theorem Decl.Service.restores : Restores Decl.Service.decode Decl.Service.encode id :=
  restores_list (restores_keyed_id (restores_portList (by decide)))

theorem Document.restores : Restores Document.decode Document.encode Document.shown := fun d =>
  record_of_restores (by decide) <|
    .cons (restores_textList d.imports rfl) <| .cons (restores_optKeyed restores_vars d.vars rfl) <|
    .cons (restores_textList d.deploys rfl) <|
    .cons (restores_optKeyed (restores_keyed_id Decl.Service.restores) d.services rfl) <|
    .cons (restores_optKeyed (restores_keyed_id Decl.Artifact.restores) d.artifacts rfl) <|
    .cons (restores_optKeyed (restores_keyed_id Decl.Image.restores) d.images rfl) <|
    .cons (restores_optKeyed (restores_keyed_id Decl.Container.restores) d.containers rfl) <|
    .cons (restores_optKeyed (restores_keyed_id Decl.Disk.restores) d.disks rfl) <|
    .cons (restores_optKeyed (restores_keyed Decl.Instance.restores) d.instances rfl) <|
    .cons (restores_optKeyed (restores_keyed Decl.Job.restores) d.jobs rfl) <| .nil _

/-! ### Documents as text -/

namespace Yaml

/-- The text of a node is parsed to that node. -/
def ReadsBack (n : Node) : Prop := (parse? (write n)).map Tree.expanded = some n

instance : DecidablePred ReadsBack := fun _ => inferInstanceAs (Decidable (_ = _))

end Yaml

/-- What is read from the text of a mapping is what the mapping itself says. -/
theorem Document.ofYaml_write {tag : Option Yaml.Tag} {es : List (Yaml.Node × Yaml.Node)}
    (h : Yaml.ReadsBack (.mapping tag es)) :
    Document.ofYaml (Yaml.write (.mapping tag es)) = Document.decode (.mapping tag es) := by
  obtain ⟨tree, hparse, htree⟩ := Option.map_eq_some_iff.1 h
  rw [Document.ofYaml, if_neg (Yaml.trimList_write_mapping tag es), hparse, ← htree]

/-- A document is read back from its plain data as what the data shows of it, and from its text where the text is
parsed to what was written. So writing what was read gives the same text. -/
theorem Document.ofYaml_toYaml (d : Document) :
    Document.decode (.ofData d.encode) = .ok d.shown ∧
      (ReadsBack (.ofData d.encode) → Document.ofYaml d.toYaml = .ok d.shown ∧ d.shown.toYaml = d.toYaml) := by
  refine ⟨Document.restores d, fun hback => ⟨?_, ?_⟩⟩
  · exact (Document.ofYaml_write hback).trans (Document.restores d)
  · rw [Document.toYaml, Document.encode_shown, Document.toYaml]

/-- Values that are close to others: a word for null as a key, a text that looks like a number beside that number, the
largest size, and labels that are all separators. -/
def Document.awkward : Document :=
  { vars := Keyed.ofList [("~", "a\n")]
    services := Keyed.ofList [("s", [Keyed.ofList [("j", .list [.number (-1), .text "-1"]), ("k", .empty)]])]
    disks := Keyed.ofList [("0", { sizeGb := some 18446744073709551615 })]
    instances := Keyed.ofList [("v", { labels := .inline " , " })] }

theorem Document.ofYaml_toYaml_awkward :
    ReadsBack (.ofData Document.awkward.encode) ∧
      Document.ofYaml Document.awkward.toYaml = .ok Document.awkward.shown ∧
      Document.awkward.shown.instances.get? "v" = some { labels := .list [] } ∧
      Document.awkward.shown.toYaml = Document.awkward.toYaml := by
  have hback : ReadsBack (.ofData Document.awkward.encode) := by decide +kernel
  obtain ⟨hread, hwrite⟩ := (Document.ofYaml_toYaml Document.awkward).2 hback
  exact ⟨hback, hread, by decide +kernel, hwrite⟩

end Rollout
