import Rollout.Text.Blank

/-! Ports that a job exposes. An entry reads `[host:]container[/tcp|/udp]`; a port list is one number, one
text of entries separated by commas, a list of both, or nothing. -/

namespace Rollout

inductive Protocol where
  | tcp
  | udp
deriving DecidableEq

def Protocol.name : Protocol → String
  | tcp => "tcp"
  | udp => "udp"

structure ExposedPort where
  host : UInt16
  container : UInt16
  protocol : Protocol
deriving DecidableEq

def ExposedPort.text (p : ExposedPort) : String :=
  toString p.host.toNat ++ ":" ++ toString p.container.toNat ++ "/" ++ p.protocol.name

inductive PortFault where
  | malformed
  | outOfRange
deriving DecidableEq

def PortFault.message : PortFault → String
  | malformed => "expected [host:]container[/tcp|udp]"
  | outOfRange => "port out of range 1-65535"

/-- A rejected entry, as it was given. -/
structure PortError where
  spec : String
  fault : PortFault
deriving DecidableEq

def PortError.message (e : PortError) : String :=
  "'" ++ e.spec ++ "': " ++ e.fault.message

namespace Port

def digitsValue (ds : List Char) : Nat :=
  ds.foldl (fun n d => 10 * n + (d.toNat - 48)) 0

/-- A non-empty run of digits with a value of at most 65535, and what follows it. -/
def number? (cs : List Char) : Option (Nat × List Char) :=
  let ds := cs.takeWhile Char.isDigit
  let n := digitsValue ds
  if ds = [] then none else if n ≤ 65535 then some (n, cs.dropWhile Char.isDigit) else none

/-- The protocol after the slash, in any letter case; nothing at all means TCP. -/
def protocol? : List Char → Option Protocol
  | [] => some .tcp
  | c :: cs =>
    if c = '/' then
      match cs.map Char.toLower with
      | ['t', 'c', 'p'] => some .tcp
      | ['u', 'd', 'p'] => some .udp
      | _ => none
    else none

/-- Host port, container port and protocol; a single number is both ports. -/
def fields? (cs : List Char) : Option (Nat × Nat × Protocol) :=
  match number? cs with
  | none => none
  | some (first, ':' :: rest) =>
    match number? rest with
    | none => none
    | some (second, rest) => (protocol? rest).map fun p => (first, second, p)
  | some (first, rest) => (protocol? rest).map fun p => (first, first, p)

def parseEntry (entry : String) : Except PortError ExposedPort :=
  match fields? (Text.trimList entry.toList) with
  | none => .error ⟨entry, .malformed⟩
  | some (host, container, protocol) =>
    if host = 0 ∨ container = 0 then .error ⟨entry, .outOfRange⟩
    else .ok ⟨UInt16.ofNat host, UInt16.ofNat container, protocol⟩

def ofNumber (n : Int64) : Except PortError ExposedPort :=
  if 1 ≤ n.toInt ∧ n.toInt ≤ 65535 then
    .ok ⟨UInt16.ofNat n.toInt.toNat, UInt16.ofNat n.toInt.toNat, .tcp⟩
  else .error ⟨toString n.toInt, .outOfRange⟩

end Port

inductive PortItem where
  | number (n : Int64)
  | text (s : String)
deriving DecidableEq

inductive PortList where
  | single (item : PortItem)
  | list (items : List PortItem)
  | empty
deriving DecidableEq

instance : Inhabited PortList := ⟨.list []⟩

/-- The entries of a text: its trimmed, non-empty pieces between commas. -/
def PortItem.entries (s : String) : List String :=
  Text.tokens (· == ',') s

def PortItem.parse : PortItem → Except PortError (List ExposedPort)
  | number n => (Port.ofNumber n).map fun p => [p]
  | text s => (entries s).mapM Port.parseEntry

def PortList.items : PortList → List PortItem
  | single item => [item]
  | list items => items
  | empty => []

/-- All ports in order, or the first rejected entry. -/
def PortList.parse (l : PortList) : Except PortError (List ExposedPort) :=
  (l.items.mapM PortItem.parse).map List.flatten

end Rollout
