import Rollout.Yaml.Token.Basic

/-! Block scalars: a header with chomping and indentation hints, then indented lines. -/

namespace Rollout.Yaml

inductive Chomp where
  | clip
  | strip
  | keep
deriving DecidableEq

/-- The hints of a header; an increment of zero stands for none. -/
structure BlockHeader where
  chomp : Chomp := .clip
  increment : Nat := 0

def chomp? (c : Char) : Option Chomp :=
  if c = '+' then some .keep else if c = '-' then some .strip else none

def increment? (c : Char) : Option Nat :=
  if '1' ≤ c ∧ c ≤ '9' then some (c.toNat - 48) else none

/-- Reads the hints behind the indicator, in either order. A zero is no hint, so the header is then
malformed. -/
def blockHeader : List Char → BlockHeader × List Char
  | [] => ({}, [])
  | c :: cs =>
    match chomp? c, increment? c with
    | some h, _ =>
      match cs with
      | d :: ds =>
        match increment? d with
        | some n => (⟨h, n⟩, ds)
        | none => (⟨h, 0⟩, cs)
      | [] => (⟨h, 0⟩, [])
    | none, some n =>
      match cs with
      | d :: ds =>
        match chomp? d with
        | some h => (⟨h, n⟩, ds)
        | none => (⟨.clip, n⟩, cs)
      | [] => (⟨.clip, n⟩, [])
    | none, none => ({}, c :: cs)

def finishLine (comment : Bool) (m : Mark) : List Char → Option (Mark × List Char)
  | [] => some (m, [])
  | c :: cs =>
    if isBreak c then some (m.pass c, cs)
    else if comment ∨ isSpace c then finishLine comment (m.pass c) cs
    else if c = '#' then finishLine true (m.pass c) cs
    else none

/-- Progress through a block scalar. Texts are held latest first; an indentation of zero is not known
yet. -/
structure BlockState where
  indent : Nat
  deepest : Nat := 0
  inLine : Bool := false
  startsBlank : Bool := false
  out : List Char := []
  lead : List Char := []
  breaks : List Char := []

namespace BlockState

/-- Begins a line of content with its first character: the break before it is kept, or folded between two
lines that start with no blank. -/
def beginLine (st : BlockState) (literal : Bool) (indent : Nat) (c : Char) : BlockState :=
  let blank := isSpace c
  let out :=
    if !literal ∧ st.lead = ['\n'] ∧ !st.startsBlank ∧ !blank then
      if st.breaks = [] then ' ' :: st.out else st.out
    else st.lead ++ st.out
  { indent, inLine := true, startsBlank := blank, out := c :: (st.breaks ++ out) }

def finish (st : BlockState) (chomp : Chomp) : String :=
  let tail :=
    match chomp with
    | .strip => []
    | .clip => st.lead
    | .keep => st.breaks ++ st.lead
  String.ofList (tail ++ st.out).reverse

end BlockState

/-- Reads the lines of a block scalar up to a line indented less. Without a hint the indentation is that of
the deepest line up to the first with content, but at least `least`. A tab may not indent. -/
def blockFrom (literal : Bool) (least : Nat) (st : BlockState) (m : Mark) :
    List Char → Option (Scanned BlockState)
  | [] => some ⟨st, m, []⟩
  | c :: cs =>
    if st.inLine then
      if isBreak c then
        blockFrom literal least { st with inLine := false, lead := [breakText c] } (m.pass c) cs
      else blockFrom literal least { st with out := c :: st.out } (m.pass c) cs
    else
      let shallow := st.indent = 0 ∨ m.column < st.indent
      if c = ' ' ∧ shallow then blockFrom literal least st (m.pass c) cs
      else if c = '\t' ∧ shallow then none
      else if isBreak c then
        blockFrom literal least
          { st with breaks := breakText c :: st.breaks, deepest := max st.deepest m.column }
          (m.pass c) cs
      else
        let indent := if st.indent = 0 then max (max st.deepest m.column) least else st.indent
        if m.column = indent then
          blockFrom literal least (st.beginLine literal indent c) (m.pass c) cs
        else some ⟨st, m, c :: cs⟩

end Rollout.Yaml
