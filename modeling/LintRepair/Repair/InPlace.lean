import LintRepair.Failure
import LintRepair.Repair.Basic
import LintRepair.Selection

/-!
# Repairing in place

The first fix of every failure is a candidate. Candidates are selected first come, first served, and
all selected ones are applied at once; those that conflict with them remain for another run.
-/

namespace LintRepair.InPlace

def summary (applied failed : Nat) : String :=
  "Applied " ++ toString applied ++ " fixes, failed " ++ toString failed ++ " fixes." ++
    if failed = 0 then "" else "\nRun lintfix again to fix the remaining fixes."

/-- Applies what can be applied. -/
def repair (file source : String) (failures : List Failure) : Except RepairError Repair := do
  let selection := select (candidates failures)
  let content ← (Patch.apply source selection.replacements).mapError fun cause => ⟨file, cause⟩
  return {
    file, content
    message := summary selection.selected.length selection.remaining.length
    applied := selection.selected
    remaining := selection.remaining }

/-- The log of a repair in place: selection, patch and, if the patch fits, the outcome. -/
def events (file source : String) (failures : List Failure) : List Log.Event :=
  let selection := select (candidates failures)
  Selection.events {} (candidates failures) ++
    match Patch.check source selection.replacements with
    | .ok () =>
        Patch.events source selection.replacements ++
          [.fixesApplied file selection.selected.length selection.remaining.length]
    | .error _ => []

end LintRepair.InPlace
