import LintRepair.Command.Apply

/-!
# Trying the files of a run

Every file that accepted failures name is repaired in place, but nothing is written: the outcome
only says how many fixes would be applied.
-/

namespace LintRepair.Command

/-- What would become of one file. -/
inductive FileForecast where
  | unreadable (file : String) (error : IoError)
  | refused (error : RepairError)
  /-- The file has so many failures with fixes, and some of these fixes would be applied. -/
  | repairable (file : String) (fixable applied remaining : Nat)

def FileForecast.failed : FileForecast → Bool
  | .repairable .. => false
  | _ => true

/-- One file of a trial, and the log. -/
structure FileTrial where
  forecast : FileForecast
  events : List Log.Event

def checkGroup (root : Path) (tree : Tree) (group : FileGroup) : FileTrial :=
  match tree.readText (root.join (Path.ofText group.file)) with
  | .error error => ⟨.unreadable group.file error, []⟩
  | .ok source =>
      let events := InPlace.events group.file source group.failures
      match InPlace.repair group.file source group.failures with
      | .error error => ⟨.refused error, events⟩
      | .ok repair =>
          ⟨.repairable group.file (group.failures.countP Failure.hasFixes) repair.applied.length
            repair.remaining.length, events⟩

end LintRepair.Command
