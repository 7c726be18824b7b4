import Rollout.Data.Basic

/-! JSON text of plain data, in one line without blanks or indented by two spaces. Only the quote, the
backslash and the controls below U+0020 are escaped. -/

namespace Rollout.Data

def hexDigit (n : Nat) : Char :=
  if n < 10 then Char.ofNat (48 + n) else Char.ofNat (87 + n)

def escapeChar (c : Char) : List Char :=
  if c = '"' then ['\\', '"']
  else if c = '\\' then ['\\', '\\']
  else if c = '\n' then ['\\', 'n']
  else if c = '\r' then ['\\', 'r']
  else if c = '\t' then ['\\', 't']
  else if c.toNat = 8 then ['\\', 'b']
  else if c.toNat = 12 then ['\\', 'f']
  else if c.toNat < 32 then
    ['\\', 'u', '0', '0', hexDigit (c.toNat / 16), hexDigit (c.toNat % 16)]
  else [c]

def quoted (s : String) : String :=
  String.ofList ('"' :: s.toList.flatMap escapeChar ++ ['"'])

mutual

def json : Data → String
  | null => "null"
  | bool b => if b then "true" else "false"
  | int n => toString n
  | real s => s
  | text s => quoted s
  | list items => "[" ++ ",".intercalate (jsonItems items) ++ "]"
  | record fields => "\x7b" ++ ",".intercalate (jsonFields fields) ++ "\x7d"

def jsonItems : List Data → List String
  | [] => []
  | d :: ds => json d :: jsonItems ds

def jsonFields : List (String × Data) → List String
  | [] => []
  | (k, d) :: fs => (quoted k ++ ":" ++ json d) :: jsonFields fs

end

def newline (level : Nat) : String :=
  String.ofList ('\n' :: List.replicate (2 * level) ' ')

def bracket (level : Nat) (left right : String) : List String → String
  | [] => left ++ right
  | ss => left ++ newline (level + 1) ++ ("," ++ newline (level + 1)).intercalate ss
      ++ newline level ++ right

mutual

/-- The indented form; an empty list or record stays on its line. -/
def jsonPretty (level : Nat) : Data → String
  | list items => bracket level "[" "]" (prettyItems (level + 1) items)
  | record fields => bracket level "\x7b" "\x7d" (prettyFields (level + 1) fields)
  | null => "null"
  | bool b => if b then "true" else "false"
  | int n => toString n
  | real s => s
  | text s => quoted s

def prettyItems (level : Nat) : List Data → List String
  | [] => []
  | d :: ds => jsonPretty level d :: prettyItems level ds

def prettyFields (level : Nat) : List (String × Data) → List String
  | [] => []
  | (k, d) :: fs => (quoted k ++ ": " ++ jsonPretty level d) :: prettyFields level fs

end

end Rollout.Data
