import Rollout.Yaml.Node
import Rollout.Yaml.Token.Scan

/-! From tokens to the node tree of the one document that a text may hold. -/

namespace Rollout.Yaml

/-- Tokens to read and the anchors met so far. An anchor takes the slot that counts the distinct names
before it; of several anchors with one slot the last to begin is the one that aliases mean. -/
structure Reader where
  tokens : List Token
  names : List (String × Nat) := []
  /-- The slots of the anchors in order of beginning, latest first. -/
  begun : List Nat := []
  /-- The anchored nodes by the order in which they began. -/
  done : List (Nat × Node) := []

abbrev Step := Option (Node × Reader)

namespace Reader

def drop (r : Reader) (n : Nat) : Reader := { r with tokens := r.tokens.drop n }

def beginAnchor (r : Reader) : Option String → Reader
  | none => r
  | some name =>
    let slot := r.names.length
    { r with
      names := (name, slot) :: r.names.filter (·.1 ≠ name)
      begun := slot :: r.begun }

def finish (r : Reader) (name : Option String) (order : Nat) (node : Node) : Reader :=
  if name.isSome then { r with done := (order, node) :: r.done } else r

def anchors (r : Reader) : Anchors :=
  let order := r.begun.length
  r.begun.mapIdx fun i slot => (slot, (r.done.lookup (order - 1 - i)).getD .null)

end Reader

def properties : List Token → Option String × Option (String × Tag) × List Token
  | .anchor a :: .tag h s :: ts => (some a, some (h, s), ts)
  | .tag h s :: .anchor a :: ts => (some a, some (h, s), ts)
  | .anchor a :: ts => (some a, none, ts)
  | .tag h s :: ts => (none, some (h, s), ts)
  | ts => (none, none, ts)

def fullTag (handles : List (String × Tag)) (handle : String) (suffix : Tag) : Option Tag :=
  if handle = "" then some suffix else (handles.lookup handle).map (·.append suffix)

def endsBlockItem : List Token → Bool
  | .blockEntry :: _ | .blockEnd :: _ => true
  | _ => false

def endsLooseItem : List Token → Bool
  | .blockEntry :: _ | .key :: _ | .value :: _ | .blockEnd :: _ => true
  | _ => false

def endsBlockField : List Token → Bool
  | .key :: _ | .value :: _ | .blockEnd :: _ => true
  | _ => false

def endsFlowItem : List Token → Bool
  | .flowEntry :: _ | .flowSequenceEnd :: _ => true
  | _ => false

def endsFlowField : List Token → Bool
  | .flowEntry :: _ | .flowMappingEnd :: _ => true
  | _ => false

mutual

/-- Reads a node. `block` allows block collections, `loose` a sequence without an indentation of its
own. -/
def node (handles : List (String × Tag)) : Nat → Bool → Bool → Reader → Step
  | 0, _, _, _ => none
  | fuel + 1, block, loose, r =>
    match r.tokens with
    | .alias name :: _ => (r.names.lookup name).map fun slot => (.alias slot, r.drop 1)
    | tokens =>
      let (anchor, tag, rest) := properties tokens
      let tag : Option (Option Tag) :=
        match tag with
        | none => some none
        | some (h, s) => (fullTag handles h s).map some
      match tag with
      | none => none
      | some tag =>
        let order := r.begun.length
        let r := { r.beginAnchor anchor with tokens := rest }
        let content : Step :=
          match rest with
          | .blockEntry :: _ =>
            if loose then
              (looseItems handles fuel r []).map fun (items, r) => (.sequence tag items, r)
            else if anchor.isSome ∨ tag.isSome then some (.scalar tag .plain "", r) else none
          | .scalar style text :: _ => some (.scalar tag style text, r.drop 1)
          | .flowSequenceStart :: _ =>
            (flowItems handles fuel true (r.drop 1) []).map fun (items, r) => (.sequence tag items, r)
          | .flowMappingStart :: _ =>
            (flowFields handles fuel true (r.drop 1) []).map fun (es, r) => (.mapping tag es, r)
          | t :: _ =>
            if block ∧ t = .blockSequenceStart then
              (blockItems handles fuel (r.drop 1) []).map fun (items, r) => (.sequence tag items, r)
            else if block ∧ t = .blockMappingStart then
              (blockFields handles fuel (r.drop 1) []).map fun (es, r) => (.mapping tag es, r)
            else if anchor.isSome ∨ tag.isSome then some (.scalar tag .plain "", r)
            else none
          | [] => if anchor.isSome ∨ tag.isSome then some (.scalar tag .plain "", r) else none
        content.map fun (n, r) => (n, r.finish anchor order n)

def blockItems (handles : List (String × Tag)) :
    Nat → Reader → List Node → Option (List Node × Reader)
  | 0, _, _ => none
  | fuel + 1, r, out =>
    match r.tokens with
    | .blockEntry :: rest =>
      let step := if endsBlockItem rest then some (.null, r.drop 1)
        else node handles fuel true false (r.drop 1)
      match step with
      | none => none
      | some (n, r) => blockItems handles fuel r (n :: out)
    | .blockEnd :: _ => some (out.reverse, r.drop 1)
    | _ => none

/-- Items of a sequence at the indentation of the mapping around it. -/
def looseItems (handles : List (String × Tag)) :
    Nat → Reader → List Node → Option (List Node × Reader)
  | 0, _, _ => none
  | fuel + 1, r, out =>
    match r.tokens with
    | .blockEntry :: rest =>
      let step := if endsLooseItem rest then some (.null, r.drop 1)
        else node handles fuel true false (r.drop 1)
      match step with
      | none => none
      | some (n, r) => looseItems handles fuel r (n :: out)
    | _ => some (out.reverse, r)

def blockFields (handles : List (String × Tag)) :
    Nat → Reader → List (Node × Node) → Option (List (Node × Node) × Reader)
  | 0, _, _ => none
  | fuel + 1, r, out =>
    match r.tokens with
    | .key :: rest =>
      let key := if endsBlockField rest then some (.null, r.drop 1)
        else node handles fuel true true (r.drop 1)
      match key with
      | none => none
      | some (k, r) =>
        let value : Step :=
          match r.tokens with
          | .value :: rest =>
            if endsBlockField rest then some (.null, r.drop 1)
            else node handles fuel true true (r.drop 1)
          | _ => some (.null, r)
        match value with
        | none => none
        | some (v, r) => blockFields handles fuel r ((k, v) :: out)
    | .blockEnd :: _ => some (out.reverse, r.drop 1)
    | _ => none

/-- Items of a flow sequence. An item may be a single pair, which is a mapping of its own. -/
def flowItems (handles : List (String × Tag)) :
    Nat → Bool → Reader → List Node → Option (List Node × Reader)
  | 0, _, _, _ => none
  | fuel + 1, first, r, out =>
    if r.tokens.head? = some .flowSequenceEnd then some (out.reverse, r.drop 1)
    else if !first ∧ r.tokens.head? ≠ some .flowEntry then none
    else
      let r := if first then r else r.drop 1
      match r.tokens with
      | .flowSequenceEnd :: _ => some (out.reverse, r.drop 1)
      | .key :: rest =>
        -- an empty key takes the token behind it along
        let key := if rest.head? = some .value ∨ endsFlowItem rest then some (.null, r.drop 2)
          else node handles fuel false false (r.drop 1)
        match key with
        | none => none
        | some (k, r) =>
          let value : Step :=
            match r.tokens with
            | .value :: rest =>
              if endsFlowItem rest then some (.null, r.drop 1)
              else node handles fuel false false (r.drop 1)
            | _ => some (.null, r)
          match value with
          | none => none
          | some (v, r) => flowItems handles fuel false r (.mapping none [(k, v)] :: out)
      | _ =>
        match node handles fuel false false r with
        | none => none
        | some (n, r) => flowItems handles fuel false r (n :: out)

/-- Fields of a flow mapping. A key alone has the empty value. -/
def flowFields (handles : List (String × Tag)) :
    Nat → Bool → Reader → List (Node × Node) → Option (List (Node × Node) × Reader)
  | 0, _, _, _ => none
  | fuel + 1, first, r, out =>
    if r.tokens.head? = some .flowMappingEnd then some (out.reverse, r.drop 1)
    else if !first ∧ r.tokens.head? ≠ some .flowEntry then none
    else
      let r := if first then r else r.drop 1
      match r.tokens with
      | .flowMappingEnd :: _ => some (out.reverse, r.drop 1)
      | .key :: rest =>
        let key := if rest.head? = some .value ∨ endsFlowField rest then some (.null, r.drop 1)
          else node handles fuel false false (r.drop 1)
        match key with
        | none => none
        | some (k, r) =>
          let value : Step :=
            match r.tokens with
            | .value :: rest =>
              if endsFlowField rest then some (.null, r.drop 1)
              else node handles fuel false false (r.drop 1)
            | _ => some (.null, r)
          match value with
          | none => none
          | some (v, r) => flowFields handles fuel false r ((k, v) :: out)
      | _ =>
        match node handles fuel false false r with
        | none => none
        | some (n, r) => flowFields handles fuel false r ((n, .null) :: out)

end

def knownHandles : List (String × Tag) := [("!", Tag.ofText "!"), ("!!", Tag.core "")]

/-- Directives in front of a document: at most one version, 1.1 or 1.2, and no handle twice. -/
def directives (version : Bool) (handles : List (String × Tag)) :
    List Token → Option (List (String × Tag) × List Token)
  | .version major minor :: ts =>
    if version ∨ major ≠ 1 ∨ (minor ≠ 1 ∧ minor ≠ 2) then none else directives true handles ts
  | .tagHandle handle lead :: ts =>
    if (handles.lookup handle).isSome then none else directives version (handles ++ [(handle, lead)]) ts
  | ts => some (handles, ts)

def endsDocument : List Token → Bool
  | [] => true
  | t :: _ =>
    match t with
    | .version .. | .tagHandle .. | .documentStart | .documentEnd => true
    | _ => false

def startsExplicitly : List Token → Bool
  | t :: _ =>
    match t with
    | .version .. | .tagHandle .. | .documentStart => true
    | _ => false
  | [] => false

/-- Each node takes a token or is entered from one that did, so this many calls always suffice. -/
def budget (ts : List Token) : Nat := 3 * ts.length + 8

/-- The tree of the only document; no document at all is the empty one. -/
def Tree.ofTokens? (ts : List Token) : Option Tree :=
  let read : Step :=
    if ts = [] then some (.null, { tokens := [] })
    else if startsExplicitly ts then
      match directives false [] ts with
      | some (handles, .documentStart :: rest) =>
        if endsDocument rest then some (.null, { tokens := rest })
        else node (handles ++ knownHandles) (budget ts) true false { tokens := rest }
      | _ => none
    else node knownHandles (budget ts) true false { tokens := ts }
  match read with
  | none => none
  | some (root, r) =>
    if r.tokens.all (· = .documentEnd) then some { root, anchors := r.anchors } else none

def parse? (text : String) : Option Tree :=
  (tokens? text).bind Tree.ofTokens?

end Rollout.Yaml
