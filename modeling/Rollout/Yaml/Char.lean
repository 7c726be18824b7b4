/-! Character classes of YAML text, positions in it, and its preparation: characters that may not occur
are refused and a carriage return before a line feed is dropped. -/

namespace Rollout.Yaml

/-- Carriage return, line feed, next line, line separator, paragraph separator. -/
def isBreak (c : Char) : Bool :=
  c == '\n' || c == '\r' || c.toNat == 0x85 || c.toNat == 0x2028 || c.toNat == 0x2029

def isSpace (c : Char) : Bool := c == ' ' || c == '\t'

def endsWord : List Char → Bool
  | [] => true
  | c :: _ => isSpace c || isBreak c

def isWordChar (c : Char) : Bool := c.isAlphanum || c == '_' || c == '-'

def isFlowIndicator (c : Char) : Bool :=
  c == ',' || c == '[' || c == ']' || c == '\x7b' || c == '\x7d'

def byteOrderMark : Char := Char.ofNat 0xFEFF

/-- The break that stands in a scalar's text: separators are kept, all others become a line feed. -/
def breakText (c : Char) : Char :=
  if c.toNat == 0x2028 || c.toNat == 0x2029 then c else '\n'

def isReadable (c : Char) : Bool :=
  let n := c.toNat
  n == 0x09 || n == 0x0A || n == 0x0D || (0x20 ≤ n && n ≤ 0x7E) || n == 0x85 ||
    (0xA0 ≤ n && n ≤ 0xD7FF) || (0xE000 ≤ n && n ≤ 0xFFFD) || 0x10000 ≤ n

def isDocumentMark (mark : Char) : List Char → Bool
  | a :: b :: c :: rest => a == mark && b == mark && c == mark && endsWord rest
  | _ => false

def startsDocumentMark (cs : List Char) : Bool :=
  isDocumentMark '-' cs || isDocumentMark '.' cs

/-- Drops each carriage return that stands before a line feed; `out` holds what is kept, latest first. -/
def dropReturns (out : List Char) : List Char → List Char
  | [] => out.reverse
  | c :: cs => if c = '\r' ∧ cs.head? = some '\n' then dropReturns out cs else dropReturns (c :: out) cs

def prepare (cs : List Char) : Option (List Char) :=
  if cs.all isReadable then some (dropReturns [] cs) else none

def hexValue? (c : Char) : Option Nat :=
  if '0' ≤ c ∧ c ≤ '9' then some (c.toNat - 48)
  else if 'a' ≤ c ∧ c ≤ 'f' then some (c.toNat - 87)
  else if 'A' ≤ c ∧ c ≤ 'F' then some (c.toNat - 55)
  else none

/-- A position: bytes, lines and, in the current line, characters passed. -/
structure Mark where
  offset : Nat := 0
  line : Nat := 0
  column : Nat := 0
deriving DecidableEq

def Mark.pass (m : Mark) (c : Char) : Mark :=
  if isBreak c then ⟨m.offset + c.utf8Size, m.line + 1, 0⟩
  else ⟨m.offset + c.utf8Size, m.line, m.column + 1⟩

/-- The position `n` characters further on the same line, each of a single byte. -/
def Mark.forward (m : Mark) (n : Nat) : Mark := ⟨m.offset + n, m.line, m.column + n⟩

end Rollout.Yaml
