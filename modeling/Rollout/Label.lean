import Rollout.Text.Blank

/-! Label selectors. An instance offers a set of labels and a job requires one; the instance can take the
job when it offers every required label. Labels are opaque tokens. -/

namespace Rollout

/-- Labels in strictly ascending order, by code point. -/
structure LabelSet where
  tokens : List String
  ascending : tokens.Pairwise (· < ·)
deriving DecidableEq

namespace LabelSet

def empty : LabelSet := ⟨[], List.Pairwise.nil⟩

instance : Inhabited LabelSet := ⟨empty⟩

def insertToken (t : String) : List String → List String
  | [] => [t]
  | u :: us => if t < u then t :: u :: us else if u < t then u :: insertToken t us else t :: us

theorem mem_insertToken {t x : String} {ts : List String} :
    x ∈ insertToken t ts ↔ x = t ∨ x ∈ ts := by
  induction ts with
  | nil => simp [insertToken]
  | cons u us ih =>
    unfold insertToken
    split
    · simp
    · split
      · simp only [List.mem_cons, ih]
        constructor
        · rintro (h | h | h) <;> simp [h]
        · rintro (h | h | h) <;> simp [h]
      · rename_i h1 h2
        have : t = u := String.le_antisymm (String.not_lt.1 h2) (String.not_lt.1 h1)
        subst this
        simp

theorem insertToken_ascending (t : String) {ts : List String} (h : ts.Pairwise (· < ·)) :
    (insertToken t ts).Pairwise (· < ·) := by
  induction ts with
  | nil => simp [insertToken]
  | cons u us ih =>
    simp only [List.pairwise_cons] at h
    unfold insertToken
    split
    · rename_i hlt
      simp only [List.pairwise_cons, List.mem_cons]
      refine ⟨?_, h⟩
      rintro x (rfl | hx)
      · exact hlt
      · exact String.lt_trans hlt (h.1 x hx)
    · split
      · rename_i hlt
        refine List.pairwise_cons.2 ⟨fun x hx => ?_, ih h.2⟩
        rcases mem_insertToken.1 hx with rfl | hx
        · exact hlt
        · exact h.1 x hx
      · rename_i h1 h2
        have : t = u := String.le_antisymm (String.not_lt.1 h2) (String.not_lt.1 h1)
        subst this
        exact List.pairwise_cons.2 h

def insert (s : LabelSet) (t : String) : LabelSet :=
  ⟨insertToken t s.tokens, insertToken_ascending t s.ascending⟩

def ofList (ts : List String) : LabelSet := ts.foldl insert empty

def contains (s : LabelSet) (t : String) : Bool := s.tokens.contains t

def size (s : LabelSet) : Nat := s.tokens.length

def isEmpty (s : LabelSet) : Bool := s.tokens.isEmpty

/-- Every required label is offered. -/
def satisfies (required offered : LabelSet) : Bool :=
  required.tokens.all offered.contains

end LabelSet

inductive RawLabels where
  /-- Tokens separated by commas and white space. -/
  | inline (s : String)
  /-- One token an item. -/
  | list (items : List String)
deriving DecidableEq

namespace RawLabels

instance : Inhabited RawLabels := ⟨list []⟩

def isSeparator (c : Char) : Bool := c == ',' || Text.isBlank c

/-- The tokens in the order of writing, with repetitions. -/
def tokens : RawLabels → List String
  | inline s => Text.tokens isSeparator s
  | list items => (items.map Text.trim).filter (· ≠ "")

def parse (r : RawLabels) : LabelSet := LabelSet.ofList r.tokens

def isEmpty (r : RawLabels) : Bool := r.parse.isEmpty

end RawLabels

end Rollout
