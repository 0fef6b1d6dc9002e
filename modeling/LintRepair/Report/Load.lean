import LintRepair.Report.Decode
import LintRepair.Tree.Walk

/-!
# Loading reports

Reports are named by paths. A file holds one report. A directory stands for all reports directly
inside it, in the order of their names, whatever order the directory itself has; it must have at
least one. The path that consists of a hyphen stands for standard input, which is read once and is
empty from then on.
-/

namespace LintRepair.Report

def standardInput : Path := Path.ofText "-"

inductive LoadError where
  | unreadable (path : Path) (error : IoError)
  | malformed (path : Path) (error : ReadError)
  | empty (path : Path)
deriving DecidableEq, Repr

def LoadError.message : LoadError → String
  | .unreadable path error => "Failed to read report " ++ path.text ++ ": " ++ error.message
  | .malformed path _ => "Failed to parse report " ++ path.text ++ ":"
  | .empty path => "No .json report files found in " ++ path.text

/-- Whether an entry of a directory is a report: a file, no link, with the extension `json`. -/
def isReport (name : String) : Entry → Bool
  | .file .. => (Path.mk [name]).extension? == some "json"
  | .directory | .link _ => false

/-- The names of the reports directly inside a directory, in ascending order. -/
def reportNames (tree : Tree) (location : Location) : List String :=
  let reports := (tree.children location).filter fun (name, entry) => isReport name entry
  (reports.map Prod.fst).mergeSort fun a b => decide (a ≤ b)

/-- The paths of the reports that a path stands for. -/
def discover (tree : Tree) (path : Path) : Except LoadError (List Path) :=
  match tree.locate path with
  | .ok location =>
      if tree.entry? location = some .directory then
        let names := reportNames tree location
        if names.isEmpty then .error (.empty path)
        else .ok (names.map fun name => path.join ⟨[name]⟩)
      else .ok [path]
  | .error _ => .ok [path]

/-- Standard input as far as it has not been read. -/
abbrev Input := Except IoError String

/-- Loads one report, and says what is left of standard input. -/
def loadOne (tree : Tree) (input : Input) (path : Path) :
    Except LoadError (List Failure × Input) := do
  let fromInput := decide (path.SameAs standardInput)
  let text ← (if fromInput then input else tree.readText path).mapError (.unreadable path)
  let failures ← (parse text).mapError (.malformed path)
  return (failures, if fromInput then .ok "" else input)

def loadFiles (tree : Tree) : Input → List Path → Except LoadError (List Failure × Input)
  | input, [] => .ok ([], input)
  | input, path :: paths => do
      let (first, input) ← loadOne tree input path
      let (rest, input) ← loadFiles tree input paths
      return (first ++ rest, input)

/-- Loads all reports that paths stand for, in the order of the paths. -/
def loadAll (tree : Tree) : Input → List Path → Except LoadError (List Failure × Input)
  | input, [] => .ok ([], input)
  | input, path :: paths => do
      let files ← discover tree path
      let (first, input) ← loadFiles tree input files
      let (rest, input) ← loadAll tree input paths
      return (first ++ rest, input)

/-- The failures of all reports that paths stand for, in the order of the paths. -/
def load (tree : Tree) (input : Input) (paths : List Path) : Except LoadError (List Failure) :=
  (loadAll tree input paths).map Prod.fst

end LintRepair.Report
