import Rollout.Yaml.Token.Flow
import Rollout.Yaml.Token.Property

/-! From YAML text to tokens. A key of one line is recognised only at its colon, so the scanner leaves an
empty slot wherever such a key may begin and fills it when the colon comes. -/

namespace Rollout.Yaml

/-- A place where a key of one line may have begun. It is required when the line could hold nothing else. -/
structure KeyPlace where
  slot : Nat
  mark : Mark
  required : Bool

structure Scanner where
  mark : Mark := {}
  rest : List Char
  slots : Array (List Token) := #[]
  indent : Int := -1
  outer : List Int := []
  /-- How many flow collections are open. -/
  flow : Nat := 0
  keyAllowed : Bool := true
  /-- The possible key of each open flow collection, innermost first, and of the block context. -/
  keys : List (Option KeyPlace) := [none]

namespace Scanner

def inFlow (s : Scanner) : Bool := 0 < s.flow

def emit (s : Scanner) (t : Token) : Scanner := { s with slots := s.slots.push [t] }

def moveTo (s : Scanner) (m : Mark) (rest : List Char) : Scanner := { s with mark := m, rest }

def skip (s : Scanner) (n : Nat) : Scanner := s.moveTo (s.mark.forward n) (s.rest.drop n)

/-- Passes blanks, comments and line breaks. A tab is a blank only where no key may begin. -/
def toToken (flow comment allowed : Bool) (m : Mark) : List Char → Bool × Mark × List Char
  | [] => (allowed, m, [])
  | c :: cs =>
    if isBreak c then toToken flow false (allowed || !flow) (m.pass c) cs
    else if comment then toToken flow true allowed (m.pass c) cs
    else if (m.column = 0 ∧ c = byteOrderMark) ∨ c = ' ' ∨ (c = '\t' ∧ (flow ∨ !allowed)) then
      toToken flow false allowed (m.pass c) cs
    else if c = '#' then toToken flow true allowed (m.pass c) cs
    else (allowed, m, c :: cs)

/-- Closes block collections indented deeper than `column`: how many, and the indentations left. -/
def closed (column : Int) (indent : Int) : List Int → Nat × Int × List Int
  | [] => (0, indent, [])
  | i :: is =>
    if column < indent then
      let r := closed column i is
      (r.1 + 1, r.2)
    else (0, indent, i :: is)

def unroll (s : Scanner) (column : Int) : Scanner :=
  if s.inFlow then s
  else
    let (n, indent, outer) := closed column s.indent s.outer
    { s with slots := s.slots ++ Array.replicate n [.blockEnd], indent, outer }

/-- Does a collection at this column open a new block? -/
def deeper (s : Scanner) (column : Int) : Bool := !s.inFlow && decide (s.indent < column)

def enterBlock (s : Scanner) (column : Int) : Scanner :=
  if s.deeper column then { s with indent := column, outer := s.indent :: s.outer } else s

def roll (s : Scanner) (start : Token) : Scanner :=
  let column : Int := s.mark.column
  if s.deeper column then (s.enterBlock column).emit start else s

/-- Gives up the innermost possible key; a required one may not be given up. -/
def dropKey (s : Scanner) : Option Scanner :=
  match s.keys with
  | some k :: ks => if k.required then none else some { s with keys := none :: ks }
  | _ => some s

def saveKey (s : Scanner) : Option Scanner :=
  if s.keyAllowed then
    match s.dropKey with
    | none => none
    | some s =>
      let required := !s.inFlow && s.indent == (s.mark.column : Int)
      some { s with
        slots := s.slots.push []
        keys := some ⟨s.slots.size, s.mark, required⟩ :: s.keys.drop 1 }
  else some s

/-- A key stays on one line and within 1024 bytes. -/
def stale (m : Mark) (k : KeyPlace) : Bool :=
  decide (k.mark.line < m.line) || decide (k.mark.offset + 1024 < m.offset)

def dropStale (s : Scanner) : Option Scanner :=
  let hit (k : Option KeyPlace) : Bool := k.any (stale s.mark)
  if s.keys.any fun k => hit k && k.any KeyPlace.required then none
  else some { s with keys := s.keys.map fun k => if hit k then none else k }

def allowKey (s : Scanner) (b : Bool) : Scanner := { s with keyAllowed := b }

/-- A document mark or directive ends all block collections. -/
def atMargin (s : Scanner) : Option Scanner :=
  ((s.unroll (-1)).dropKey).map (allowKey · false)

def documentMark (s : Scanner) (t : Token) : Option Scanner :=
  s.atMargin.map fun s => (s.skip 3).emit t

def directive (s : Scanner) : Option Scanner := do
  let s ← s.atMargin
  let d ← directive? (s.mark.forward 1) (s.rest.drop 1)
  return (s.moveTo d.mark d.rest).emit d.value

def flowStart (s : Scanner) (t : Token) : Option Scanner :=
  s.saveKey.map fun s =>
    ({ s with flow := s.flow + 1, keys := none :: s.keys, keyAllowed := true }.skip 1).emit t

def flowEnd (s : Scanner) (t : Token) : Option Scanner :=
  s.dropKey.map fun s =>
    let keys := if s.inFlow then s.keys.drop 1 else s.keys
    ({ s with flow := s.flow - 1, keys, keyAllowed := false }.skip 1).emit t

def flowEntry (s : Scanner) : Option Scanner :=
  s.dropKey.map fun s => ((s.allowKey true).skip 1).emit .flowEntry

def blockEntry (s : Scanner) : Option Scanner :=
  if !s.inFlow ∧ !s.keyAllowed then none
  else (s.roll .blockSequenceStart).dropKey.map fun s => ((s.allowKey true).skip 1).emit .blockEntry

def explicitKey (s : Scanner) : Option Scanner :=
  if !s.inFlow ∧ !s.keyAllowed then none
  else
    (s.roll .blockMappingStart).dropKey.map fun s => ((s.allowKey !s.inFlow).skip 1).emit .key

/-- A colon: the possible key becomes a key, and opens a block mapping if it stands deeper. -/
def value (s : Scanner) : Option Scanner :=
  match s.keys with
  | some k :: ks =>
    let column : Int := k.mark.column
    let start := if s.deeper column then [.blockMappingStart, .key] else [.key]
    let s := s.enterBlock column
    some (({ s with
      slots := s.slots.setIfInBounds k.slot start
      keys := none :: ks
      keyAllowed := false }.skip 1).emit .value)
  | _ =>
    if !s.inFlow ∧ !s.keyAllowed then none
    else
      let s := s.roll .blockMappingStart
      some (((s.allowKey !s.inFlow).skip 1).emit .value)

def anchor (s : Scanner) (token : String → Token) : Option Scanner := do
  let s ← s.saveKey
  let a ← anchorName? (s.mark.forward 1) (s.rest.drop 1)
  return ((s.allowKey false).moveTo a.mark a.rest).emit (token a.value)

def tag (s : Scanner) : Option Scanner := do
  let s ← s.saveKey
  let t ← tag? s.inFlow (s.mark.forward 1) (s.rest.drop 1)
  return ((s.allowKey false).moveTo t.mark t.rest).emit (.tag t.value.1 t.value.2)

def blockScalar (s : Scanner) (style : Style) : Option Scanner := do
  let s ← s.dropKey
  let (header, rest) := blockHeader (s.rest.drop 1)
  let m := s.mark.forward (s.rest.length - rest.length)
  let (m, rest) ← finishLine false m rest
  let indent := if header.increment = 0 then 0 else s.indent.toNat + header.increment
  let least := max (s.indent + 1).toNat 1
  let b ← blockFrom (style = .literal) least { indent } m rest
  return ((s.allowKey true).moveTo b.mark b.rest).emit (.scalar style (b.value.finish header.chomp))

def quotedScalar (s : Scanner) (style : Style) : Option Scanner := do
  let s ← s.saveKey
  let q ← quotedFrom (style = .doubleQuoted) .text {} [] (s.mark.forward 1) (s.rest.drop 1)
  return ((s.allowKey false).moveTo q.mark q.rest).emit (.scalar style q.value)

def plainScalar (s : Scanner) : Option Scanner := do
  let s ← s.saveKey
  let p ← plainFrom s.inFlow (s.indent + 1) {} [] s.mark s.rest
  return ((s.allowKey p.value.brokeLine).moveTo p.mark p.rest).emit (.scalar .plain p.value.text)

def startsPlain (flow : Bool) (c : Char) (cs : List Char) : Bool :=
  !(['-', '?', ':', ',', '[', ']', '\x7b', '\x7d', '#', '&', '*', '!', '|', '>', '\'', '"', '%', '@',
      Char.ofNat 96, ' ', '\t'].contains c || isBreak c) ||
    (c == '-' && !(cs.head?.any isSpace)) ||
    (!flow && (c == '?' || c == ':') && !endsWord cs)

def token (s : Scanner) (c : Char) (cs : List Char) : Option Scanner :=
  let margin := s.mark.column = 0
  if margin ∧ c = '%' then s.directive
  else if margin ∧ isDocumentMark '-' (c :: cs) then s.documentMark .documentStart
  else if margin ∧ isDocumentMark '.' (c :: cs) then s.documentMark .documentEnd
  else if c = '[' then s.flowStart .flowSequenceStart
  else if c = '\x7b' then s.flowStart .flowMappingStart
  else if c = ']' then s.flowEnd .flowSequenceEnd
  else if c = '\x7d' then s.flowEnd .flowMappingEnd
  else if c = ',' then s.flowEntry
  else if c = '-' ∧ endsWord cs then s.blockEntry
  else if c = '?' ∧ (s.inFlow ∨ endsWord cs) then s.explicitKey
  else if c = ':' ∧ (s.inFlow ∨ endsWord cs) then s.value
  else if c = '*' then s.anchor .alias
  else if c = '&' then s.anchor .anchor
  else if c = '!' then s.tag
  else if c = '|' ∧ !s.inFlow then s.blockScalar .literal
  else if c = '>' ∧ !s.inFlow then s.blockScalar .folded
  else if c = '\'' then s.quotedScalar .singleQuoted
  else if c = '"' then s.quotedScalar .doubleQuoted
  else if startsPlain s.inFlow c cs then s.plainScalar
  else none

/-- Moves to the next token, gives up stale keys and closes blocks that end before it. -/
def advance (s : Scanner) : Option Scanner :=
  let (allowed, m, rest) := toToken s.inFlow false s.keyAllowed s.mark s.rest
  match ({ s with keyAllowed := allowed, mark := m, rest }).dropStale with
  | none => none
  | some s => some (s.unroll s.mark.column)

/-- Scans to the end of the text. Every token takes a character, so the length of the text bounds the
steps. -/
def run : Nat → Scanner → Option Scanner
  | 0, _ => none
  | fuel + 1, s =>
    match s.advance with
    | none => none
    | some s =>
      match s.rest with
      | [] => (s.unroll (-1)).dropKey
      | c :: cs =>
        match s.token c cs with
        | none => none
        | some s => run fuel s

end Scanner

def tokens? (text : String) : Option (List Token) :=
  match prepare text.toList with
  | none => none
  | some cs => (Scanner.run (cs.length + 1) { rest := cs }).map fun s => s.slots.toList.flatten

end Rollout.Yaml
