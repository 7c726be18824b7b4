import Rollout.Text.Blank

/-! Templates over variables. The only action is a variable reference `{{.name}}`, with blanks allowed
inside the braces; text outside actions is copied. -/

namespace Rollout

inductive Segment where
  | text (s : String)
  | var (name : String)
deriving DecidableEq

inductive TemplateError where
  /-- The action at this byte offset is unclosed or no variable reference. -/
  | malformed (offset : Nat)
  | missing (name : String)
deriving DecidableEq

def TemplateError.text : TemplateError → String
  | malformed offset => "Malformed \x7b offset: " ++ toString offset ++ " \x7d"
  | missing name => "MissingVar(\"" ++ name ++ "\")"

namespace Template

def isPadding (c : Char) : Bool :=
  c == ' ' || c == '\t' || c == '\r' || c == '\n'

def opens : List Char → Bool
  | c :: d :: _ => c == '\x7b' && d == '\x7b'
  | _ => false

def close? : List Char → Option (List Char)
  | c :: d :: cs => if c = '\x7d' ∧ d = '\x7d' then some cs else none
  | _ => none

/-- The variable name of an action, given what follows its opening braces, and the rest after it. -/
def action? (cs : List Char) : Option (List Char × List Char) :=
  match cs.dropWhile isPadding with
  | [] => none
  | c :: cs =>
    let name := cs.takeWhile Text.isNameChar
    if c = '.' ∧ name ≠ [] then
      (close? ((cs.dropWhile Text.isNameChar).dropWhile isPadding)).map fun rest => (name, rest)
    else none

/-- The text before the first opening braces, and the rest from there on. -/
def textRun : List Char → List Char × List Char
  | [] => ([], [])
  | c :: cs =>
    if opens (c :: cs) then ([], c :: cs)
    else
      let r := textRun cs
      (c :: r.1, r.2)

theorem length_of_close? {cs rest : List Char} (h : close? cs = some rest) :
    rest.length < cs.length := by
  unfold close? at h
  split at h
  · split at h
    · simp only [Option.some.injEq] at h
      subst h
      simp only [List.length_cons]
      omega
    · simp at h
  · simp at h

theorem length_of_action? {cs name rest : List Char} (h : action? cs = some (name, rest)) :
    rest.length < cs.length := by
  unfold action? at h
  have h0 := Text.length_dropWhile_le isPadding cs
  split at h
  · simp at h
  · rename_i c ds hds
    rw [hds] at h0
    dsimp only at h
    split at h
    · obtain ⟨r, hr, he⟩ := Option.map_eq_some_iff.1 h
      simp only [Prod.mk.injEq] at he
      have h1 := length_of_close? (he.2 ▸ hr)
      have h2 := Text.length_dropWhile_le isPadding (ds.dropWhile Text.isNameChar)
      have h3 := Text.length_dropWhile_le Text.isNameChar ds
      simp at h0
      omega
    · simp at h

theorem length_textRun (cs : List Char) : (textRun cs).2.length ≤ cs.length := by
  induction cs with
  | nil => simp [textRun]
  | cons c cs ih => unfold textRun; split <;> simp; omega

def segmentsFrom (offset : Nat) : List Char → Except TemplateError (List Segment)
  | [] => .ok []
  | c :: cs =>
    if opens (c :: cs) then
      match _h : action? (cs.drop 1) with
      | none => .error (.malformed offset)
      | some (name, rest) =>
        let used := (c :: cs).take ((c :: cs).length - rest.length)
        match segmentsFrom (offset + Text.byteLength used) rest with
        | .error e => .error e
        | .ok segments => .ok (.var (String.ofList name) :: segments)
    else
      let run := textRun cs
      match segmentsFrom (offset + Text.byteLength (c :: run.1)) run.2 with
      | .error e => .error e
      | .ok segments => .ok (.text (String.ofList (c :: run.1)) :: segments)
termination_by cs => cs.length
decreasing_by
  · have := length_of_action? ‹action? _ = some _›; simp at this ⊢; omega
  · have := length_textRun cs; simp; omega

def parse (s : String) : Except TemplateError (List Segment) :=
  segmentsFrom 0 s.toList

/-- Puts values in, from the left; the first unknown variable is the error. -/
def fill (lookup : String → Option String) : List Segment → Except TemplateError String
  | [] => .ok ""
  | .text s :: segments => (fill lookup segments).map (s ++ ·)
  | .var name :: segments =>
    match lookup name with
    | none => .error (.missing name)
    | some v => (fill lookup segments).map (v ++ ·)

def render (lookup : String → Option String) (s : String) : Except TemplateError String :=
  match parse s with
  | .error e => .error e
  | .ok segments => fill lookup segments

end Template

end Rollout
