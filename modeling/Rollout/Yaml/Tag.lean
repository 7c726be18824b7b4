/-! Tags. Percent escapes in a tag may spell bytes that are no UTF-8 text, so a tag is known by its bytes;
it ends before the first zero byte. -/

namespace Rollout.Yaml

structure Tag where
  bytes : List UInt8
deriving DecidableEq

namespace Tag

def ofBytes (bytes : List UInt8) : Tag := ⟨bytes.takeWhile (· ≠ 0)⟩

def ofText (s : String) : Tag := ofBytes (s.toList.flatMap String.utf8EncodeChar)

def append (s t : Tag) : Tag := ⟨s.bytes ++ t.bytes⟩

def isEmpty (t : Tag) : Bool := t.bytes.isEmpty

/-- A tag of the core schema, which fixes the type of a scalar. -/
def core (name : String) : Tag := ofText ("tag:yaml.org,2002:" ++ name)

def isMarked (t : Tag) : Bool := t.bytes.head? == some 33

def text? (t : Tag) : Option String := String.fromUTF8? ⟨t.bytes.toArray⟩

/-- Drops a leading exclamation mark that is not all there is. -/
def unmark : List Char → List Char
  | '!' :: c :: cs => c :: cs
  | cs => cs

/-- The name of a tag of the document's own: one that is text and starts with an exclamation mark. A second
mark in front makes no other name. -/
def ownName? (t : Tag) : Option String :=
  if t.isMarked then t.text?.map fun s => String.ofList (unmark (unmark s.toList)) else none

end Tag

end Rollout.Yaml
