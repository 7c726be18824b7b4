import Rollout.Task
import Rollout.Proofs.Environment
import Rollout.Proofs.Template

/-! What evaluating does to one text and binding to all fields. A text that still holds no action when it has been
evaluated was a template of known variables; and the fields of what is bound are the evaluated fields, in order. -/

namespace Rollout

namespace Context

open Template

variable {c : Context} {env : Environment} {s : String}

/-- The text is a template of these segments, and every variable in it is defined. -/
structure Knows (c : Context) (s : String) (segments : List Segment) : Prop where
  written : Written segments s.toList
  defined : ∀ name, .var name ∈ segments → (c.get? name).isSome

/-- A text that holds no action once it is evaluated was a template: what cannot be rendered stays as it is. -/
theorem knows_of_plain_eval (h : Plain (c.eval env s).toList) : ∃ segments, c.Knows s segments := by
  unfold eval at h
  cases hr : render c.get? s with
  | ok r =>
    obtain ⟨segments, hw, hdefined, -⟩ := render_eq_ok.1 hr
    exact ⟨segments, hw, hdefined⟩
  | error e =>
    rw [hr] at h
    exact absurd h (not_plain_of_render_error hr)

theorem Knows.render {segments : List Segment} (h : c.Knows s segments) :
    render c.get? s = .ok (String.ofList (segments.flatMap (value c.get?))) :=
  render_eq_ok.2 ⟨segments, h.written, h.defined, rfl⟩

theorem Knows.plain_eval {segments : List Segment} (h : c.Knows s segments)
    (hvalue : ∀ name v, .var name ∈ segments → c.get? name = some v → '\x7b' ∉ v.toList)
    (hdollar : '$' ∉ segments.flatMap (value c.get?)) : Plain (c.eval env s).toList := by
  have heval : c.eval env s = String.ofList (segments.flatMap (value c.get?)) := by
    simp only [eval, h.render]
    exact expand_of_not_mem (by rwa [String.toList_ofList])
  rw [heval, String.toList_ofList]
  exact h.written.plain_flatMap hvalue

end Context

/-- Rewriting the fields rewrites each in its place. -/
class LawfulTemplated (α : Type) [Templated α] : Prop where
  fields_mapFields (f : String → String) (a : α) : fields (mapFields f a) = (fields a).map f

export LawfulTemplated (fields_mapFields)

section Fields

variable {α : Type} [Templated α] [LawfulTemplated α] (f : String → String)

theorem present_map (os : List (Option String)) :
    (os.map (Option.map f)).filterMap id = (os.filterMap id).map f := by
  rw [List.filterMap_map, List.map_filterMap]
  rfl

theorem flatMap_fields_map (as : List α) :
    (as.map (mapFields f)).flatMap fields = (as.flatMap fields).map f := by
  rw [List.flatMap_map, List.map_flatMap]
  exact List.flatMap_congr fun a _ => fields_mapFields f a

theorem getD_fields_map (o : Option α) :
    ((o.map (mapFields f)).map fields).getD [] = ((o.map fields).getD []).map f := by
  cases o with
  | none => rfl
  | some a => exact fields_mapFields f a

theorem append_map {f : String → String} {xs ys xs' ys' : List String} (h : xs' = xs.map f) (h' : ys' = ys.map f) :
    xs' ++ ys' = (xs ++ ys).map f := by
  rw [h, h', List.map_append]

instance : LawfulTemplated Disk where
  fields_mapFields f d := present_map f [d.cloud, d.diskType]

instance : LawfulTemplated Volume where
  fields_mapFields f v := congrArg (f v.mountPoint :: ·) (fields_mapFields f v.resolved)

instance : LawfulTemplated Instance where
  fields_mapFields f i :=
    append_map (present_map f [i.cloud, i.project, i.zone, i.machineType, i.image]) (flatMap_fields_map f i.mounts)

instance : LawfulTemplated Artifact where
  fields_mapFields f a := present_map f [a.project, a.repository, a.build, a.tag]

instance : LawfulTemplated Image where
  fields_mapFields f i :=
    append_map (present_map f [i.dockerfile, i.repository, i.tag]) (flatMap_fields_map f i.resolvedArtifacts)

instance : LawfulTemplated Container where
  fields_mapFields f c :=
    append_map (append_map (append_map (present_map f [c.image, c.command]) rfl) rfl) (getD_fields_map f c.targetImage)

instance : LawfulTemplated Job where
  fields_mapFields f j :=
    append_map (append_map (getD_fields_map f j.template) (flatMap_fields_map f j.instances))
      (flatMap_fields_map f j.copies)

instance : LawfulTemplated Service where
  fields_mapFields f s := flatMap_fields_map f s.jobs

instance : LawfulTemplated Target where
  fields_mapFields f t := by
    cases t with
    | disk e | «instance» e | artifact e | image e | container e | job e | service e | deploy e =>
      exact fields_mapFields f e

instance : LawfulTemplated Graph where
  fields_mapFields f g := by
    have hvalues : ∀ {α : Type} [Templated α] [LawfulTemplated α] (m : Keyed α),
        (m.map (mapFields f)).values.flatMap fields = (m.values.flatMap fields).map f := fun m => by
      rw [Keyed.values_map, flatMap_fields_map]
    exact append_map (append_map (append_map (append_map (append_map (append_map (append_map (hvalues _) (hvalues _))
      (hvalues _)) (hvalues _)) (hvalues _)) (hvalues _)) (hvalues _)) (flatMap_fields_map f g.deploys)

end Fields

end Rollout
