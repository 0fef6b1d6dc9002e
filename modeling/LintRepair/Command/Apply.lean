import LintRepair.Persist
import LintRepair.Repair.Run
import LintRepair.Report.Group

/-!
# Repairing the files of a run

Every file that accepted failures name is repaired once, one file after the other. Whatever goes
wrong with one file is its own outcome and leaves the others alone.
-/

namespace LintRepair.Command

inductive FileOutcome where
  | unreadable (file : String) (error : IoError)
  /-- There is no repair of the file. -/
  | refused (error : RepairError)
  /-- The repair could not be written. -/
  | unwritten (file : String) (error : PersistError)
  /-- The file was repaired, and what was done with the repair. -/
  | repaired (repair : Repair) (persisted : Persisted)

namespace FileOutcome

def failed : FileOutcome → Bool
  | .repaired .. => false
  | _ => true

def repair? : FileOutcome → Option Repair
  | .repaired repair _ => some repair
  | _ => none

def isWritten : FileOutcome → Bool
  | .repaired _ (.written _) => true
  | _ => false

end FileOutcome

/-- One file of a run: what is left of the tree, what has become of the file, and the log. -/
structure FileRun where
  tree : Tree
  outcome : FileOutcome
  events : List Log.Event

/-- Writes a repair, if the method of the run writes anything. -/
def writeRepair (settings : Settings) (root : Path) (tree : Tree) (source : String)
    (repair : Repair) : PersistOutcome :=
  if settings.method.writesContent then persist tree repair source root settings.output
  else ⟨tree, .ok .unchanged⟩

def applyGroup (settings : Settings) (root : Path) (tree : Tree) (group : FileGroup) : FileRun :=
  match tree.readText (root.join (Path.ofText group.file)) with
  | .error error => ⟨tree, .unreadable group.file error, []⟩
  | .ok source =>
      let events := settings.method.events group.file source group.failures
      match settings.method.repair group.file source group.failures with
      | .error error => ⟨tree, .refused error, events⟩
      | .ok repair =>
          let written := writeRepair settings root tree source repair
          match written.result with
          | .error error => ⟨written.tree, .unwritten group.file error, events⟩
          | .ok (.written target) =>
              ⟨written.tree, .repaired repair (.written target),
                events ++ written.events ++ [.resultPersisted target.text]⟩
          | .ok .unchanged => ⟨written.tree, .repaired repair .unchanged, events⟩

def applyGroups (settings : Settings) (root : Path) : Tree → List FileGroup → List FileRun
  | _, [] => []
  | tree, group :: groups =>
      let run := applyGroup settings root tree group
      run :: applyGroups settings root run.tree groups

def finalTree (tree : Tree) (runs : List FileRun) : Tree :=
  (runs.getLast?.map FileRun.tree).getD tree

/-- The groups of a run: the files that accepted failures name. -/
def acceptedGroups (settings : Settings) (root : Path) (tree : Tree) (failures : List Failure) :
    List FileGroup :=
  groupByFile tree root (failures.filter settings.accepts)

/-- Numbers over all files of a run. -/
structure Totals where
  applied : Nat := 0
  remaining : Nat := 0
  written : Nat := 0
  failed : Nat := 0
deriving DecidableEq, Repr

/-- The numbers with one more file. A file that fails counts only as such, whatever its repair
would have applied. -/
def Totals.add (totals : Totals) : FileOutcome → Totals
  | .repaired repair persisted =>
      { totals with
        applied := totals.applied + repair.applied.length
        remaining := totals.remaining + repair.remaining.length
        written :=
          match persisted with
          | .written _ => totals.written + 1
          | .unchanged => totals.written }
  | .unreadable .. | .refused _ | .unwritten .. => { totals with failed := totals.failed + 1 }

/-- The numbers of a run, counted file by file. -/
def Totals.ofOutcomes (outcomes : List FileOutcome) : Totals :=
  outcomes.foldl Totals.add {}

end LintRepair.Command
