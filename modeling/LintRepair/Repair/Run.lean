import LintRepair.Method
import LintRepair.Repair.InPlace
import LintRepair.Repair.Preview

/-!
# Repairing by a method

Every method makes a repair of a file out of its source and its failures, and says in the log what
it does.
-/

namespace LintRepair.Method

/-- The repair that a method makes of a file. -/
def repair (method : Method) (file source : String) (failures : List Failure) :
    Except RepairError Repair :=
  match method with
  | .inPlace => InPlace.repair file source failures
  | .diff => Preview.repair file source failures
  | .off => .ok { file, content := source, message := "" }

/-- The log of a method at work on a file. -/
def events (method : Method) (file source : String) (failures : List Failure) :
    List Log.Event :=
  match method with
  | .inPlace => InPlace.events file source failures
  | .diff => Preview.events source failures
  | .off => []

end LintRepair.Method
