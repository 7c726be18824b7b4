import Rollout.Text.Blank

/-! The process environment and the expansion of `$NAME` and `${NAME}`. A text splits from the left into
literals and references in one way, and values are put in without being scanned again. -/

namespace Rollout

/-- Settings of the form `NAME=value`, in order. -/
structure Environment where
  settings : List String := []

namespace Environment

def ofList (vars : List (String × String)) : Environment :=
  ⟨vars.map fun v => v.1 ++ "=" ++ v.2⟩

def afterLead? : List Char → List Char → Option (List Char)
  | [], cs => some cs
  | _ :: _, [] => none
  | p :: ps, c :: cs => if p = c then afterLead? ps cs else none

/-- The value of the first setting that starts with the name and an equals sign. The empty name is never
set. -/
def lookup (env : Environment) (name : String) : Option String :=
  if name = "" ∨ name.toList.contains (Char.ofNat 0) then none
  else env.settings.findSome? fun s =>
    (afterLead? (name.toList ++ ['=']) s.toList).map String.ofList

end Environment

namespace Expand

inductive Piece where
  /-- A run without a dollar sign. -/
  | literal (cs : List Char)
  /-- A dollar sign that starts no reference. -/
  | dollar
  /-- A dollar sign and the longest run of name characters after it. -/
  | bare (name : List Char)
  /-- A name in braces: anything up to the first closing brace. -/
  | braced (name : List Char)
deriving DecidableEq

def untilBrace? : List Char → Option (List Char × List Char)
  | [] => none
  | c :: cs =>
    if c = '\x7d' then some ([], cs)
    else (untilBrace? cs).map fun r => (c :: r.1, r.2)

theorem length_of_untilBrace? {cs name rest : List Char} (h : untilBrace? cs = some (name, rest)) :
    rest.length < cs.length := by
  induction cs generalizing name with
  | nil => simp [untilBrace?] at h
  | cons c cs ih =>
    unfold untilBrace? at h
    split at h
    · simp only [Option.some.injEq, Prod.mk.injEq] at h
      simp [h.2]
    · obtain ⟨⟨n, r⟩, hr, he⟩ := Option.map_eq_some_iff.1 h
      simp only [Prod.mk.injEq] at he
      have := ih (he.2 ▸ hr)
      simp; omega

def pieces : List Char → List Piece
  | [] => []
  | c :: cs =>
    if c = '$' then
      match cs with
      | [] => [.dollar]
      | d :: ds =>
        if d = '\x7b' then
          match _h : untilBrace? ds with
          | some (name, rest) => .braced name :: pieces rest
          | none => .dollar :: pieces (d :: ds)
        else if Text.isNameChar d then
          .bare (d :: ds.takeWhile Text.isNameChar) :: pieces (ds.dropWhile Text.isNameChar)
        else .dollar :: pieces (d :: ds)
    else
      .literal (c :: cs.takeWhile (· ≠ '$')) :: pieces (cs.dropWhile (· ≠ '$'))
termination_by cs => cs.length
decreasing_by
  · have := length_of_untilBrace? ‹untilBrace? _ = some _›; simp; omega
  · simp
  · have := Text.length_dropWhile_le Text.isNameChar ds; simp; omega
  · simp
  · have := Text.length_dropWhile_le (· ≠ '$') cs; simp at this ⊢; omega

def Piece.value (lookup : String → Option String) : Piece → List Char
  | literal cs => cs
  | dollar => ['$']
  | bare name | braced name => ((lookup (String.ofList name)).getD "").toList

end Expand

/-- Replaces every reference by its value, or by nothing where it has none. -/
def expand (lookup : String → Option String) (s : String) : String :=
  String.ofList ((Expand.pieces s.toList).flatMap (Expand.Piece.value lookup))

def Environment.expand (env : Environment) (s : String) : String :=
  Rollout.expand env.lookup s

end Rollout
