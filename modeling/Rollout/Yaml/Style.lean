import Rollout.Data.Basic
import Rollout.Yaml.Node
import Rollout.Yaml.Scalar

/-! How plain data is written as YAML nodes: numbers and null plainly, text in the plainest style that
reads back as the same text. -/

namespace Rollout.Yaml

/-- Characters that stand in a scalar as they are; a line feed among them. -/
def isPrintable (c : Char) : Bool :=
  let n := c.toNat
  n == 0x0A || (0x20 ≤ n && n ≤ 0x7E) || (0xA0 ≤ n && n ≤ 0xD7FF) ||
    (0xE000 ≤ n && n ≤ 0xFFFD && n != 0xFEFF) || 0x10000 ≤ n

def adjacent (p q : Char → Bool) : List Char → Bool
  | [] => false
  | [_] => false
  | a :: b :: cs => (p a && q b) || adjacent p q (b :: cs)

def isSpecial (cs : List Char) : Bool := cs.any fun c => !isPrintable c

def isMultiline (cs : List Char) : Bool := cs.any isBreak

/-- Quotes cannot keep a space next to a break. -/
def allowsSingle (cs : List Char) : Bool :=
  !isSpecial cs && !adjacent isBreak (· == ' ') cs && !adjacent (· == ' ') isBreak cs

def allowsLiteral (cs : List Char) : Bool :=
  !isSpecial cs && cs.getLast? != some ' ' && !adjacent (· == ' ') isBreak cs

def startsIndicated : List Char → Bool
  | '-' :: '-' :: '-' :: _ => true
  | '.' :: '.' :: '.' :: _ => true
  | c :: cs =>
    ['#', ',', '[', ']', '\x7b', '\x7d', '&', '*', '!', '|', '>', '\'', '"', '%', '@',
        Char.ofNat 96].contains c ||
      (['-', '?', ':'].contains c && endsWord cs)
  | [] => false

/-- Holds a colon that ends a word or a hash that begins one. -/
def holdsIndicator : List Char → Bool
  | [] => false
  | c :: cs =>
    (c == ':' && endsWord cs) || ((isSpace c || isBreak c) && cs.head? == some '#') || holdsIndicator cs

def allowsPlain (cs : List Char) : Bool :=
  !isSpecial cs && !isMultiline cs && cs.head? != some ' ' && cs.getLast? != some ' ' &&
    !startsIndicated cs && !holdsIndicator cs

/-- Would the plain spelling be something else than this text, or look like a number? -/
def isAmbiguous (s : String) : Bool :=
  plainKind s != .text || isPaddedNumber s.toList

def quoteStyle (cs : List Char) : Style :=
  if allowsSingle cs then .singleQuoted else .doubleQuoted

def styleOf (s : String) : Style :=
  let cs := s.toList
  if cs.contains '\n' then if allowsLiteral cs then .literal else .doubleQuoted
  else if isAmbiguous s then quoteStyle cs
  else if allowsPlain cs then .plain
  else quoteStyle cs

def Node.ofText (s : String) : Node := .scalar none (styleOf s) s

mutual

def Node.ofData : Data → Node
  | .null => .scalar none .plain "null"
  | .bool b => .scalar none .plain (if b then "true" else "false")
  | .int n => .scalar none .plain (toString n)
  | .real s => .scalar none .plain s
  | .text s => .ofText s
  | .list items => .sequence none (Node.ofItems items)
  | .record fields => .mapping none (Node.ofFields fields)

def Node.ofItems : List Data → List Node
  | [] => []
  | d :: ds => Node.ofData d :: Node.ofItems ds

def Node.ofFields : List (String × Data) → List (Node × Node)
  | [] => []
  | (k, d) :: fs => (Node.ofText k, Node.ofData d) :: Node.ofFields fs

end

end Rollout.Yaml
