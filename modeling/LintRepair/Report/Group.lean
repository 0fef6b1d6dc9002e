import LintRepair.Failure
import LintRepair.Path.Normal
import LintRepair.Tree.Walk

/-!
# Failures by file

Reports may spell the name of a file in many ways. `resolveFileName` gives every file one name, and
`groupByFile` collects the failures of each file under it, so that a file is repaired once with all
of its failures.
-/

namespace LintRepair

/-- The path of a file without dots and links: links are followed if the file exists. -/
def resolvedPath (tree : Tree) (root : Path) (file : String) : Path :=
  let joined := (root.join (Path.ofText file)).normalized
  match tree.canonical joined with
  | .ok path => path
  | .error _ => joined

/-- The name of the file that a path leads to: its path from `root` if it lies inside it, and else
its whole path. -/
def nameFrom (root path : Path) : String :=
  match path.componentsBehind? root with
  | some components => (Path.ofComponents components).text
  | none => path.text

/-- The one name of a file. -/
def resolveFileName (tree : Tree) (root : Path) (file : String) : String :=
  nameFrom root (resolvedPath tree root file)

/-- The failures of one file, in the order of the reports. -/
structure FileGroup where
  file : String
  failures : List Failure

/-- Puts a failure into the group of its file, which comes last if it is new. -/
def FileGroup.insert (file : String) (failure : Failure) : List FileGroup → List FileGroup
  | [] => [⟨file, [failure]⟩]
  | group :: groups =>
      if group.file = file then ⟨file, group.failures ++ [failure]⟩ :: groups
      else group :: insert file failure groups

/-- The failures by file, in the order in which the files first occur. -/
def groupByFile (tree : Tree) (root : Path) (failures : List Failure) : List FileGroup :=
  failures.foldl
    (fun groups failure =>
      FileGroup.insert (resolveFileName tree root failure.file) failure groups) []

end LintRepair
