import Rollout.FileTree
import Rollout.Proofs.Keyed
import Rollout.Proofs.Text

/-! What paths denote. Whatever the entries of a tree are, all that lies above an entry is a directory; so following
names and links stays where something stands, and ends at a file or a directory and never at a link. -/

namespace Rollout

theorem Location.isAbove_iff {l m : Location} : l.isAbove m = true ↔ l.names <+: m.names ∧ l ≠ m := by
  simp [isAbove, List.isPrefixOf_iff_prefix]

theorem Path.names_ne_nil (path : String) : names path ≠ [] := by
  simpa [names] using Text.pieces_ne_nil (· == '/') path.toList

namespace FileTree

variable {t : FileTree} {l : Location}

theorem mem_entries_of_get? {e : FileEntry} (h : t.get? l = some e) (hne : e ≠ .directory) :
    l ∈ t.entries.map Prod.fst := by
  unfold get? at h
  split at h
  · exact absurd (Option.some.inj h).symm hne
  · exact List.mem_map.2 ⟨_, Keyed.mem_of_lookup_eq_some h, rfl⟩

theorem get?_of_read {text : String} (h : t.read l = .ok text) : t.get? l = some (.file (some text)) := by
  unfold read at h
  split at h <;> cases h
  assumption

theorem exists_entry_of_get? {e : FileEntry} (h : t.get? l = some e) (hl : l.names ≠ []) :
    ∃ m ∈ t.entries, l.names <+: m.1.names := by
  unfold get? at h
  split at h
  · rename_i habove
    obtain ⟨m, hm, hlm⟩ := List.any_eq_true.1 (habove.resolve_left hl)
    exact ⟨m, hm, (Location.isAbove_iff.1 hlm).1⟩
  · exact ⟨(l, e), Keyed.mem_of_lookup_eq_some h, List.prefix_rfl⟩

theorem get?_parent {e : FileEntry} (h : t.get? l = some e) : t.get? l.parent = some .directory := by
  refine if_pos ?_
  by_cases hl : l.names = []
  · exact .inl (by simp [Location.parent, hl])
  · obtain ⟨m, hm, hlm⟩ := exists_entry_of_get? h hl
    refine .inr (List.any_eq_true.2 ⟨m, hm, Location.isAbove_iff.2 ⟨?_, fun hparent => ?_⟩⟩)
    · exact (List.dropLast_prefix l.names).trans hlm
    · -- the parent has one name less than the location
      have hlength := hlm.length_le
      have hpos := List.length_pos_iff.2 hl
      rw [← hparent, Location.parent, List.length_dropLast] at hlength
      omega

def Stands (t : FileTree) (l : Location) : Prop := ∃ e, t.get? l = some e ∧ ∀ path, e ≠ .link path

/-- One step of a walk stays in the directory, goes up or goes down, and what it comes to stands; or it turns to the
names of a link. -/
theorem walk_cons {name : String} {rest : List String} {here : Location} {r : Walk}
    (h : t.walk here (name :: rest) = .ok r) :
    (∃ next, t.Stands next ∧ t.walk next rest = .ok r) ∨ ∃ start path, r = .turn start (Path.names path ++ rest) := by
  unfold walk at h
  split at h
  · cases h
  rename_i hdir
  have hdir : t.get? here = some .directory := not_not.1 hdir
  split at h
  · exact .inl ⟨here, ⟨.directory, hdir, nofun⟩, h⟩
  split at h
  · exact .inl ⟨here.parent, ⟨.directory, get?_parent hdir, nofun⟩, h⟩
  split at h
  · cases h
  split at h
  · cases h
  · cases h
    exact .inr ⟨_, _, rfl⟩
  · rename_i e hlink he
    exact .inl ⟨here.child name, ⟨e, he, hlink⟩, h⟩

theorem walk_stands {names : List String} {here : Location} (h : t.walk here names = .ok (.done l))
    (hhere : names = [] → t.Stands here) : t.Stands l := by
  induction names generalizing here with
  | nil =>
    cases h
    exact hhere rfl
  | cons name rest ih =>
    obtain ⟨next, hnext, h⟩ | ⟨start, path, hturn⟩ := walk_cons h
    · exact ih h fun _ => hnext
    · cases hturn

theorem ne_nil_of_walk {names names' : List String} {here here' : Location}
    (h : t.walk here names = .ok (.turn here' names')) : names' ≠ [] := by
  induction names generalizing here with
  | nil => cases h
  | cons name rest ih =>
    obtain ⟨next, -, h⟩ | ⟨start, path, hturn⟩ := walk_cons h
    · exact ih h
    · cases hturn
      exact List.append_ne_nil_of_left_ne_nil (Path.names_ne_nil path) rest

theorem follow_eq_ok {links : Nat} {names : List String} {here : Location} (h : t.follow links here names = .ok l) :
    t.walk here names = .ok (.done l) ∨ ∃ n here' names', links = n + 1 ∧
      t.walk here names = .ok (.turn here' names') ∧ t.follow n here' names' = .ok l := by
  unfold follow at h
  split at h
  · cases h
  · rename_i hwalk
    cases h
    exact .inl hwalk
  · rename_i hwalk
    split at h
    · cases h
    · exact .inr ⟨_, _, _, rfl, hwalk, h⟩

theorem follow_stands {links : Nat} {names : List String} {here : Location} (h : t.follow links here names = .ok l)
    (hnames : names ≠ []) : t.Stands l := by
  induction links generalizing here names with
  | zero =>
    obtain hwalk | ⟨n, here', names', hn, -, -⟩ := follow_eq_ok h
    · exact walk_stands hwalk fun hnil => absurd hnil hnames
    · cases hn
  | succ links ih =>
    obtain hwalk | ⟨n, here', names', hn, hwalk, h⟩ := follow_eq_ok h
    · exact walk_stands hwalk fun hnil => absurd hnil hnames
    · cases hn
      exact ih h (ne_nil_of_walk hwalk)

/-- What a path denotes is there and is no link, from wherever the path is seen. -/
theorem locate_stands {cwd : Location} {path : String} (h : t.locate cwd path = .ok l) : t.Stands l := by
  unfold locate at h
  split at h
  · cases h
  split at h
  · cases h
  exact follow_stands h (Path.names_ne_nil path)

/-- What a path denotes is read, unless it is a directory or a file that holds no text. -/
theorem read_of_locate {cwd : Location} {path : String} (h : t.locate cwd path = .ok l) :
    (∃ text, t.read l = .ok text) ∨ t.read l = .error .isDirectory ∨ t.read l = .error .notText := by
  obtain ⟨e, he, hlink⟩ := locate_stands h
  unfold read
  rw [he]
  cases e with
  | directory => exact .inr (.inl rfl)
  | file text =>
    cases text with
    | none => exact .inr (.inr rfl)
    | some text => exact .inl ⟨text, rfl⟩
  | link path => exact absurd rfl (hlink path)

-- A link to a directory is passed through, and two links to each other lead nowhere.
example :
    let t : FileTree :=
      ⟨[(⟨["d", "a"]⟩, .file (some "x")), (⟨["up"]⟩, .link "d"), (⟨["p"]⟩, .link "/q"), (⟨["q"]⟩, .link "p")]⟩
    t.locate ⟨[]⟩ "up/../up/a" = .ok ⟨["d", "a"]⟩ ∧ t.locate ⟨[]⟩ "p" = .error .tooManyLinks := by
  decide +kernel

end FileTree

end Rollout
