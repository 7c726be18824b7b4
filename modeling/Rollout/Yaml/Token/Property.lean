import Rollout.Yaml.Token.Block

/-! Anchors, aliases, tags and directives. -/

namespace Rollout.Yaml

def endsAnchor : List Char → Bool
  | [] => true
  | c :: cs => endsWord (c :: cs) || ['?', ':', ',', ']', '\x7d', '%', '@', Char.ofNat 96].contains c

def anchorName? (m : Mark) (cs : List Char) : Option (Scanned String) :=
  let name := cs.takeWhile isWordChar
  let rest := cs.dropWhile isWordChar
  if name ≠ [] ∧ endsAnchor rest then
    some ⟨String.ofList name, m.forward name.length, rest⟩
  else none

/-- Characters of a tag. A comma and square brackets count only in verbatim tags and directives. -/
def isTagChar (verbatim : Bool) (c : Char) : Bool :=
  isWordChar c ||
    [';', '/', '?', ':', '@', '&', '=', '+', '$', '.', '%', '!', '~', '*', '\'', '(', ')'].contains c ||
    (verbatim && [',', '[', ']'].contains c)

/-- How many bytes the UTF-8 form takes that starts with this byte; zero if none does. -/
def utf8Width (octet : Nat) : Nat :=
  if octet < 0x80 then 1
  else if 0xC0 ≤ octet ∧ octet < 0xE0 then 2
  else if 0xE0 ≤ octet ∧ octet < 0xF0 then 3
  else if 0xF0 ≤ octet ∧ octet < 0xF8 then 4
  else 0

/-- Reads tag characters; `%` escapes stand for the bytes of UTF-8 text. The bytes are gathered latest
first, with how many characters were read and how many bytes of the current character are missing. -/
def tagBytes (verbatim : Bool) (missing : Nat) (out : List UInt8) (used : Nat) :
    List Char → Option (List UInt8 × Nat × List Char)
  | '%' :: a :: b :: cs =>
    match hexValue? a, hexValue? b with
    | some h, some l =>
      let octet := 16 * h + l
      if missing = 0 then
        if utf8Width octet = 0 then none
        else tagBytes verbatim (utf8Width octet - 1) (octet.toUInt8 :: out) (used + 3) cs
      else if 0x80 ≤ octet ∧ octet < 0xC0 then
        tagBytes verbatim (missing - 1) (octet.toUInt8 :: out) (used + 3) cs
      else none
    | _, _ => none
  | [] => if missing = 0 then some (out, used, []) else none
  | c :: cs =>
    if missing ≠ 0 ∨ c = '%' then none
    else if isTagChar verbatim c then
      tagBytes verbatim 0 (c.toNat.toUInt8 :: out) (used + 1) cs
    else some (out, used, c :: cs)

def tagRun? (verbatim : Bool) (m : Mark) (cs : List Char) : Option (Scanned Tag) :=
  match tagBytes verbatim 0 [] 0 cs with
  | none => none
  | some (out, used, rest) => some ⟨Tag.ofBytes out.reverse, m.forward used, rest⟩

def tagRunOne? (verbatim : Bool) (m : Mark) (cs : List Char) : Option (Scanned Tag) :=
  (tagRun? verbatim m cs).bind fun s => if s.mark = m then none else some s

/-- A tag's end: in a flow collection a comma may follow at once. -/
def endsTag (flow : Bool) (cs : List Char) : Bool :=
  endsWord cs || (flow && cs.head? == some ',')

/-- Handle and suffix of a tag, read behind its exclamation mark. A verbatim tag has an empty handle, and so
has the mark with nothing behind it, whose suffix is itself. -/
def tag? (flow : Bool) (m : Mark) (cs : List Char) : Option (Scanned (String × Tag)) :=
  let scanned : Option (Scanned (String × Tag)) :=
    match cs with
    | '<' :: cs =>
      match tagRunOne? true (m.forward 1) cs with
      | some ⟨suffix, m', '>' :: rest⟩ => some ⟨("", suffix), m'.forward 1, rest⟩
      | _ => none
    | cs =>
      let word := cs.takeWhile isWordChar
      let m := m.forward word.length
      match cs.dropWhile isWordChar with
      | '!' :: rest =>
        (tagRunOne? false (m.forward 1) rest).map fun s =>
          ⟨("!" ++ String.ofList word ++ "!", s.value), s.mark, s.rest⟩
      | rest =>
        (tagRun? false m rest).map fun s =>
          let suffix := (Tag.ofText (String.ofList word)).append s.value
          ⟨if suffix.isEmpty then ("", Tag.ofText "!") else ("!", suffix), s.mark, s.rest⟩
  scanned.bind fun s => if endsTag flow s.rest then some s else none

def versionNumber? (m : Mark) (cs : List Char) : Option (Scanned Nat) :=
  let ds := cs.takeWhile Char.isDigit
  if ds = [] ∨ 9 < ds.length then none
  else some ⟨ds.foldl (fun n d => 10 * n + (d.toNat - 48)) 0, m.forward ds.length, cs.dropWhile Char.isDigit⟩

def skipSpaces (m : Mark) : List Char → Mark × List Char
  | [] => (m, [])
  | c :: cs => if isSpace c then skipSpaces (m.pass c) cs else (m, c :: cs)

/-- The handle of a tag directive: one mark, or a word between two. -/
def tagHandle? (m : Mark) : List Char → Option (Scanned String)
  | '!' :: cs =>
    let word := cs.takeWhile isWordChar
    let m := m.forward (word.length + 1)
    match cs.dropWhile isWordChar with
    | '!' :: rest => some ⟨"!" ++ String.ofList word ++ "!", m.forward 1, rest⟩
    | rest => if word = [] then some ⟨"!", m, rest⟩ else none
  | _ => none

def directive? (m : Mark) (cs : List Char) : Option (Scanned Token) :=
  let name := String.ofList (cs.takeWhile isWordChar)
  let (m, rest) := skipSpaces (m.forward name.length) (cs.dropWhile isWordChar)
  let scanned : Option (Scanned Token) :=
    if !endsWord (cs.dropWhile isWordChar) then none
    else if name = "YAML" then
      match versionNumber? m rest with
      | some ⟨major, m, '.' :: rest⟩ =>
        match versionNumber? (m.forward 1) rest with
        | some ⟨minor, m, rest⟩ => some ⟨.version major minor, m, rest⟩
        | none => none
      | _ => none
    else if name = "TAG" then
      match tagHandle? m rest with
      | some ⟨handle, m, rest⟩ =>
        let (m', rest') := skipSpaces m rest
        if (rest.head?.map isSpace) ≠ some true then none
        else
          match tagRunOne? true m' rest' with
          | some ⟨lead, m, rest⟩ =>
            if endsWord rest then some ⟨.tagHandle handle lead, m, rest⟩ else none
          | none => none
      | none => none
    else none
  match scanned with
  | none => none
  | some s => (finishLine false s.mark s.rest).map fun e => ⟨s.value, e.1, e.2⟩

end Rollout.Yaml
