import Rollout.Yaml.Style

/-! YAML text of a node: block style with an indentation of two, and flow style only for empty
collections. A sequence in a mapping stands at the column of its key. -/

namespace Rollout.Yaml

/-- Written text, its column, whether the last character was a blank, and whether the line holds nothing
but indentation and indicators of nesting. -/
structure Pen where
  text : String := ""
  column : Nat := 0
  blank : Bool := true
  fresh : Bool := true

namespace Pen

def put (p : Pen) (c : Char) : Pen := { p with text := p.text.push c, column := p.column + 1 }

def putAll (p : Pen) (cs : List Char) : Pen := cs.foldl put p

def newline (p : Pen) (c : Char) : Pen := { p with text := p.text.push c, column := 0 }

/-- Goes to column `n`, on the next line unless only indentation stands before it. -/
def indent (p : Pen) (n : Nat) : Pen :=
  let p := if !p.fresh || n < p.column || (p.column == n && !p.blank) then p.newline '\n' else p
  { p.putAll (List.replicate (n - p.column) ' ') with blank := true, fresh := true }

def indicator (p : Pen) (s : String) (blank nests : Bool) : Pen :=
  let p := if p.blank then p else p.put ' '
  let p := p.putAll s.toList
  { p with blank, fresh := p.fresh && nests }

def attach (p : Pen) (s : String) : Pen :=
  let p := p.putAll s.toList
  { p with blank := false, fresh := false }

end Pen

def upperHex (n : Nat) : Char :=
  if n < 10 then Char.ofNat (48 + n) else Char.ofNat (55 + n)

def hexDigits : Nat → Nat → List Char
  | 0, _ => []
  | width + 1, n => hexDigits width (n / 16) ++ [upperHex (n % 16)]

def escape (c : Char) : List Char :=
  let n := c.toNat
  if c = '"' then ['\\', '"']
  else if c = '\\' then ['\\', '\\']
  else if isPrintable c ∧ !isBreak c then [c]
  else if n = 0 then ['\\', '0']
  else if n = 7 then ['\\', 'a']
  else if n = 8 then ['\\', 'b']
  else if n = 9 then ['\\', 't']
  else if n = 10 then ['\\', 'n']
  else if n = 11 then ['\\', 'v']
  else if n = 12 then ['\\', 'f']
  else if n = 13 then ['\\', 'r']
  else if n = 27 then ['\\', 'e']
  else if n = 0x85 then ['\\', 'N']
  else if n = 0x2028 then ['\\', 'L']
  else if n = 0x2029 then ['\\', 'P']
  else if n ≤ 0xFF then '\\' :: 'x' :: hexDigits 2 n
  else if n ≤ 0xFFFF then '\\' :: 'u' :: hexDigits 4 n
  else '\\' :: 'U' :: hexDigits 8 n

/-- The text of a single-quoted scalar; the line after a break is indented. -/
def singleBody (n : Nat) (broke : Bool) (p : Pen) : List Char → Pen
  | [] => if broke then p.indent n else p
  | c :: cs =>
    if c = ' ' then singleBody n broke (p.put c) cs
    else if isBreak c then
      let p := if !broke ∧ c = '\n' then p.newline '\n' else p
      singleBody n true { p.newline c with fresh := true } cs
    else
      let p := if broke then p.indent n else p
      let p := if c = '\'' then p.put c else p
      singleBody n false { p.put c with fresh := false } cs

/-- The lines of a literal scalar; empty ones get no indentation. -/
def literalBody (n : Nat) (broke : Bool) (p : Pen) : List Char → Pen
  | [] => p
  | c :: cs =>
    if isBreak c then literalBody n true { p.newline c with fresh := true } cs
    else
      let p := if broke then p.indent n else p
      literalBody n false { p.put c with fresh := false } cs

/-- The hints behind the bar: the indentation if the first line would hide it, and how to end. -/
def literalHints (cs : List Char) : String :=
  let indent := if cs.head?.any (fun c => c == ' ' || isBreak c) then "2" else ""
  let chomp :=
    match cs.reverse with
    | [] => "-"
    | [c] => if isBreak c then "+" else "-"
    | c :: d :: _ => if !isBreak c then "-" else if isBreak d then "+" else ""
  indent ++ chomp

def writeScalar (n : Nat) (style : Style) (s : String) (p : Pen) : Pen :=
  let cs := s.toList
  match style with
  | .plain =>
    let p := if p.blank || cs.isEmpty then p else p.put ' '
    { p.putAll cs with blank := false, fresh := false }
  | .singleQuoted => (singleBody n false (p.indicator "'" false false) cs).attach "'"
  | .doubleQuoted => ((p.indicator "\"" false false).putAll (cs.flatMap escape)).attach "\""
  | .literal | .folded =>
    let p := (p.indicator "|" false false).putAll (literalHints cs).toList
    literalBody n true { p.newline '\n' with blank := true, fresh := true } cs

/-- A key that may stand before its colon on one line. -/
def isSimpleKey : Node → Bool
  | .scalar _ _ s => !isMultiline s.toList && decide (s.utf8ByteSize ≤ 128)
  | _ => false

mutual

def writeNode (outer : Option Nat) (field : Bool) : Node → Pen → Pen
  | .scalar _ style s, p => writeScalar (outer.getD 0 + 2) style s p
  | .sequence _ [], p => (p.indicator "[" true false).attach "]"
  | .sequence _ (item :: items), p =>
    let n := match outer with
      | none => 0
      | some n => if field && !p.fresh then n else n + 2
    writeItems n (item :: items) p
  | .mapping _ [], p => (p.indicator "\x7b" true false).attach "\x7d"
  | .mapping _ (e :: es), p =>
    let n := match outer with
      | none => 0
      | some n => n + 2
    writeFields n (e :: es) p
  | .alias _, p => p

def writeItems (n : Nat) : List Node → Pen → Pen
  | [], p => p
  | item :: items, p =>
    writeItems n items (writeNode (some n) false item ((p.indent n).indicator "-" false true))

def writeFields (n : Nat) : List (Node × Node) → Pen → Pen
  | [], p => p
  | (k, v) :: es, p =>
    let p := p.indent n
    let p :=
      if isSimpleKey k then (writeNode (some n) true k p).attach ":"
      else
        ((writeNode (some n) true k (p.indicator "?" false true)).indent n).indicator ":" false true
    writeFields n es (writeNode (some n) true v p)

end

def write (root : Node) : String :=
  ((writeNode none false root {}).indent 0).text

end Rollout.Yaml
