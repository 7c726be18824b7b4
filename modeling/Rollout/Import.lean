import Rollout.Document.Decode
import Rollout.Document.Merge
import Rollout.Environment
import Rollout.Error
import Rollout.FileTree

/-! Loading a document with its imports. An import path may refer to the environment and is seen from the
directory of the file that names it. Imports are folded in one after another, each with its own imports
already folded in. A file may occur in several branches but not below itself. -/

namespace Rollout

structure World where
  files : FileTree := {}
  env : Environment := {}
  cwd : Location := ⟨[]⟩

/-- An import that cannot be found or read is a fault of the document that names it. -/
def Error.importedBy (origin : String) : Error → Error
  | io path fault => parse origin (.unreadable path fault)
  | e => e

namespace World

def loading (path : String) : Line := ⟨.info, "loading document", [("path", .text path)]⟩

def resolving (origin path : String) : Line :=
  ⟨.debug, "resolving import", [("from", .text origin), ("import", .text path)]⟩

def fetch (w : World) (chain : List Location) (path : String) : Except Error (Location × Document) :=
  match w.files.locate w.cwd path with
  | .error fault => .error (.io path fault)
  | .ok here =>
    if here ∈ chain then .error (.parse path (.cycle (chain ++ [here])))
    else
      match w.files.read here with
      | .error fault => .error (.io path fault)
      | .ok text =>
        match Document.ofYaml text with
        | .error e => .error (.parse path (.yaml e))
        | .ok doc => .ok (here, doc)

/-- Folds imports into a document in order. `origin` names the document in messages and lines. -/
def foldImports (w : World) (load : String → Traced (Except Error Document)) (origin base : String) :
    Document → List String → Traced (Except Error Document)
  | doc, [] => ⟨.ok doc, []⟩
  | doc, raw :: rest =>
    let path := Path.join base (w.env.expand raw)
    let imported := load path
    let lines := resolving origin path :: imported.lines
    match imported.value with
    | .error e => ⟨.error (e.importedBy origin), lines⟩
    | .ok d =>
      (foldImports w load origin base (doc.absorb d) rest).after (lines ++ doc.mergeLines d)

/-- Loads a file below the files of `chain`, with so many further levels of imports. -/
def loadBelow (w : World) : Nat → List Location → String → Traced (Except Error Document)
  | levels, chain, path =>
    let lines := [loading path]
    match w.fetch chain path with
    | .error e => ⟨.error e, lines⟩
    | .ok (here, doc) =>
      match levels with
      -- never met from `levels`, since a file that is fetched is not on the chain yet
      | 0 => ⟨.ok doc, lines⟩
      | levels + 1 =>
        (w.foldImports (w.loadBelow levels (chain ++ [here])) path here.parent.text doc
          doc.imports).after lines

/-- No chain of imports is longer than this, since each file on it is a different entry. -/
def levels (w : World) : Nat := w.files.entries.length

def loadTraced (w : World) (path : String) : Traced (Except Error Document) :=
  w.loadBelow w.levels [] path

def load (w : World) (path : String) : Except Error Document := (w.loadTraced path).value

def inlineOrigin : String := "<inline>"

def loadTextTraced (w : World) (text base : String) : Traced (Except Error Document) :=
  match Document.ofYaml text with
  | .error e => ⟨.error (.parse inlineOrigin (.yaml e)), []⟩
  | .ok doc => w.foldImports (w.loadBelow w.levels []) inlineOrigin base doc doc.imports

/-- Loads a document from its text; `base` is the directory its imports are seen from. -/
def loadText (w : World) (text base : String) : Except Error Document :=
  (w.loadTextTraced text base).value

end World

end Rollout
