import LintRepair.Config.Settings
import LintRepair.Log
import LintRepair.Repair.Basic
import LintRepair.Tree.Write

/-!
# Putting repairs into a tree

A repair that changes nothing is not written. Any other one is written in the place of its source,
or as a copy under the same relative path in a directory for copies; a file whose relative path
would lead out of that directory has no copy. The new file has the permission bits of the source.
-/

namespace LintRepair

inductive PersistError where
  | io (path : Path) (error : IoError)
  /-- A copy of this file would lie outside of the directory for copies. -/
  | escapes (file : Path)
deriving DecidableEq, Repr

def PersistError.message : PersistError → String
  | .io path error => "File I/O error on " ++ path.text ++ ": " ++ error.message
  | .escapes file => "Cannot mirror " ++ file.text ++ " into a copy directory: path escapes it"

/-- What was done with a repair. -/
inductive Persisted where
  | written (target : Path)
  | unchanged
deriving DecidableEq, Repr

/-- The components of a file's path from `root`, if it lies inside it. -/
def relativeComponents? (root file : Path) : Option (List Path.Component) :=
  if file.isAbsolute then file.componentsBehind? root else some file.components

/-- The path of a file's copy inside the directory for copies. -/
def copyPath (root file : Path) : Except PersistError Path :=
  match relativeComponents? root file with
  | none => .error (.escapes file)
  | some components =>
      let inside := components.filter (· ≠ .here)
      if inside.all fun component => component matches .name _ then
        .ok (Path.ofComponents inside)
      else .error (.escapes file)

/-- Where the repair of a file is written. -/
def persistTarget (root file : Path) : Output → Except PersistError Path
  | .direct => .ok (root.join file)
  | .copy dir => do
      let inside ← copyPath root file
      return (root.join dir).join inside

/-- Makes the directories that the target of a copy needs. -/
def prepareTarget (tree : Tree) (target : Path) : Output → Tree × Except PersistError Unit
  | .direct => (tree, .ok ())
  | .copy _ =>
      match target.parent? with
      | some parent =>
          let attempt := tree.makeDirectories parent
          (attempt.tree, attempt.result.mapError (.io parent))
      | none => (tree, .ok ())

/-- What is left of a tree, and what was done. -/
structure PersistOutcome where
  tree : Tree
  result : Except PersistError Persisted

/-- Writes a repair of a file that holds `source`. -/
def persist (tree : Tree) (repair : Repair) (source : String) (root : Path) (output : Output) :
    PersistOutcome :=
  if !repair.isModified source then ⟨tree, .ok .unchanged⟩
  else
    let file := Path.ofText repair.file
    match persistTarget root file output with
    | .error error => ⟨tree, .error error⟩
    | .ok target =>
        match prepareTarget tree target output with
        | (prepared, .error error) => ⟨prepared, .error error⟩
        | (prepared, .ok ()) =>
            let mode := (prepared.mode? (root.join file)).getD Tree.newFileMode
            let attempt := prepared.replaceFile target repair.content mode
            match attempt.result with
            | .ok () => ⟨attempt.tree, .ok (.written target)⟩
            | .error error => ⟨attempt.tree, .error (.io target error)⟩

def PersistOutcome.events (outcome : PersistOutcome) : List Log.Event :=
  match outcome.result with
  | .ok (.written target) => [.contentWritten target.text]
  | _ => []

end LintRepair
