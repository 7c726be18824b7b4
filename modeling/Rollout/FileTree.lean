import Rollout.Text.Blank

/-! A finite tree of files, directories and links. Paths are texts; a location is what a path denotes once every
link on the way is followed: the names from the root down. -/

namespace Rollout

/-- Why a path denotes nothing, or what it denotes cannot be read as text. -/
inductive FileFault where
  | notFound
  | notDirectory
  | isDirectory
  | nameTooLong
  | notText
  | nulByte
  | tooManyLinks
deriving DecidableEq

def FileFault.message : FileFault → String
  | notFound => "No such file or directory (os error 2)"
  | notDirectory => "Not a directory (os error 20)"
  | isDirectory => "Is a directory (os error 21)"
  | nameTooLong => "File name too long (os error 36)"
  | notText => "stream did not contain valid UTF-8"
  | nulByte => "file name contained an unexpected NUL byte"
  | tooManyLinks => "Too many levels of symbolic links (os error 40)"

/-- Names from the root down. -/
structure Location where
  names : List String
deriving DecidableEq

namespace Location

def text (l : Location) : String :=
  "/" ++ "/".intercalate l.names

/-- The directory that holds it; the root holds itself. -/
def parent (l : Location) : Location := ⟨l.names.dropLast⟩

def child (l : Location) (name : String) : Location := ⟨l.names ++ [name]⟩

def isAbove (l m : Location) : Bool := l.names.isPrefixOf m.names && l ≠ m

end Location

namespace Path

def isAbsolute (path : String) : Bool := path.toList.head? == some '/'

/-- `path` as seen from the directory `base`. Nothing is normalised. -/
def join (base path : String) : String :=
  if isAbsolute path ∨ base = "" then path
  else if base.toList.getLast? = some '/' then base ++ path
  else base ++ "/" ++ path

def names (path : String) : List String :=
  (Text.pieces (· == '/') path.toList).map String.ofList

end Path

inductive FileEntry where
  | directory
  /-- A file with its text, if it holds any. -/
  | file (text : Option String)
  /-- A link to what a path denotes, seen from where the link stands. -/
  | link (path : String)
deriving DecidableEq

structure FileTree where
  entries : List (Location × FileEntry) := []

namespace FileTree

/-- The entry at a location. The root and all that lies above an entry are directories. -/
def get? (t : FileTree) (l : Location) : Option FileEntry :=
  if l.names = [] ∨ t.entries.any (fun e => l.isAbove e.1) then some .directory
  else t.entries.lookup l

def nameLimit : Nat := 255

/-- What following names comes to: a location, or the names to follow instead because of a link. -/
inductive Walk where
  | done (here : Location)
  | turn (here : Location) (names : List String)

/-- Follows names from a location up to the first link. Only a directory can be passed through. -/
def walk (t : FileTree) : Location → List String → Except FileFault Walk
  | here, [] => .ok (.done here)
  | here, name :: rest =>
    if t.get? here ≠ some .directory then .error .notDirectory
    else if name = "" ∨ name = "." then t.walk here rest
    else if name = ".." then t.walk here.parent rest
    else if nameLimit < Text.byteLength name.toList then .error .nameTooLong
    else
      match t.get? (here.child name) with
      | none => .error .notFound
      | some (.link path) =>
        .ok (.turn (if Path.isAbsolute path then ⟨[]⟩ else here) (Path.names path ++ rest))
      | some _ => t.walk (here.child name) rest

def linkLimit : Nat := 40

def follow (t : FileTree) : Nat → Location → List String → Except FileFault Location
  | links, here, names =>
    match t.walk here names with
    | .error fault => .error fault
    | .ok (.done here) => .ok here
    | .ok (.turn here names) =>
      match links with
      | 0 => .error .tooManyLinks
      | links + 1 => t.follow links here names

/-- The location that a path denotes, seen from the directory `cwd`. It exists. -/
def locate (t : FileTree) (cwd : Location) (path : String) : Except FileFault Location :=
  if path.toList.contains (Char.ofNat 0) then .error .nulByte
  else if path = "" then .error .notFound
  else t.follow linkLimit (if Path.isAbsolute path then ⟨[]⟩ else cwd) (Path.names path)

/-- Reads the file at a location, where no link is followed any more. -/
def read (t : FileTree) (l : Location) : Except FileFault String :=
  match t.get? l with
  | none => .error .notFound
  | some .directory => .error .isDirectory
  | some (.link _) => .error .tooManyLinks
  | some (.file none) => .error .notText
  | some (.file (some text)) => .ok text

end FileTree

end Rollout
