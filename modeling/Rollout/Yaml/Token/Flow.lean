import Rollout.Yaml.Token.Basic

/-! Quoted and plain scalars: text that may run over several lines, which are folded. -/

namespace Rollout.Yaml

inductive QuoteState where
  | text
  /-- Behind a backslash. -/
  | escape
  /-- Inside a numeric escape, with digits still to come. -/
  | code (left value : Nat)
  /-- Behind an apostrophe that may be doubled. -/
  | apostrophe

def escaped? (c : Char) : Option Char :=
  match c with
  | '0' => some (Char.ofNat 0)
  | 'a' => some (Char.ofNat 7)
  | 'b' => some (Char.ofNat 8)
  | 't' => some '\t'
  | '\t' => some '\t'
  | 'n' => some '\n'
  | 'v' => some (Char.ofNat 11)
  | 'f' => some (Char.ofNat 12)
  | 'r' => some '\r'
  | 'e' => some (Char.ofNat 27)
  | ' ' => some ' '
  | '"' => some '"'
  | '/' => some '/'
  | '\\' => some '\\'
  | 'N' => some (Char.ofNat 0x85)
  | '_' => some (Char.ofNat 0xA0)
  | 'L' => some (Char.ofNat 0x2028)
  | 'P' => some (Char.ofNat 0x2029)
  | _ => none

def codeDigits? (c : Char) : Option Nat :=
  match c with
  | 'x' => some 2
  | 'u' => some 4
  | 'U' => some 8
  | _ => none

/-- A code point that is a character: no surrogate, at most U+10FFFF. -/
def codeChar? (n : Nat) : Option Char :=
  if (0xD800 ≤ n ∧ n ≤ 0xDFFF) ∨ 0x10FFFF < n then none else some (Char.ofNat n)

def quotedFrom (double : Bool) (st : QuoteState) (gap : Gap) (out : List Char) (m : Mark) :
    List Char → Option (Scanned String)
  | [] =>
    match st with
    | .apostrophe => some ⟨String.ofList out.reverse, m, []⟩
    | _ => none
  | c :: cs =>
    match st with
    | .text =>
      if isSpace c then quotedFrom double .text (gap.space c) out (m.pass c) cs
      else if isBreak c then quotedFrom double .text (gap.newline c) out (m.pass c) cs
      else if m.column = 0 ∧ startsDocumentMark (c :: cs) then none
      else
        let out := gap.join out
        if double then
          if c = '"' then some ⟨String.ofList out.reverse, m.pass c, cs⟩
          else if c = '\\' then quotedFrom double .escape {} out (m.pass c) cs
          else quotedFrom double .text {} (c :: out) (m.pass c) cs
        else if c = '\'' then quotedFrom double .apostrophe {} out (m.pass c) cs
        else quotedFrom double .text {} (c :: out) (m.pass c) cs
    | .escape =>
      if isBreak c then quotedFrom double .text { folding := true } out (m.pass c) cs
      else
        match escaped? c, codeDigits? c with
        | some e, _ => quotedFrom double .text {} (e :: out) (m.pass c) cs
        | none, some n => quotedFrom double (.code n 0) {} out (m.pass c) cs
        | none, none => none
    | .code left value =>
      match hexValue? c with
      | none => none
      | some d =>
        let value := 16 * value + d
        if left ≤ 1 then
          match codeChar? value with
          | none => none
          | some e => quotedFrom double .text {} (e :: out) (m.pass c) cs
        else quotedFrom double (.code (left - 1) value) {} out (m.pass c) cs
    | .apostrophe =>
      if c = '\'' then quotedFrom double .text {} (c :: out) (m.pass c) cs
      else some ⟨String.ofList out.reverse, m, c :: cs⟩

/-- A plain scalar and whether a line break follows its last character. -/
structure PlainText where
  text : String
  brokeLine : Bool

def colonClash : List Char → Bool
  | c :: _ => c == '?' || isFlowIndicator c
  | [] => false

/-- Reads a plain scalar. It ends before a comment, a document mark, a colon that ends a word, a flow
indicator inside a flow collection, or a line indented less than `indent`. -/
def plainFrom (flow : Bool) (indent : Int) (gap : Gap) (out : List Char) (m : Mark) :
    List Char → Option (Scanned PlainText)
  | [] => some ⟨⟨String.ofList out.reverse, gap.folding⟩, m, []⟩
  | c :: cs =>
    if isSpace c then
      if gap.folding ∧ (m.column : Int) < indent ∧ c = '\t' then none
      else plainFrom flow indent (gap.space c) out (m.pass c) cs
    else if isBreak c then plainFrom flow indent (gap.newline c) out (m.pass c) cs
    else
      let stop := some ⟨⟨String.ofList out.reverse, gap.folding⟩, m, c :: cs⟩
      if !gap.isEmpty ∧ ((!flow ∧ (m.column : Int) < indent) ∨
          (m.column = 0 ∧ startsDocumentMark (c :: cs)) ∨ c = '#') then stop
      else if flow ∧ c = ':' ∧ colonClash cs then none
      else if (c = ':' ∧ endsWord cs) ∨ (flow ∧ isFlowIndicator c) then stop
      else plainFrom flow indent {} (c :: gap.join out) (m.pass c) cs

end Rollout.Yaml
