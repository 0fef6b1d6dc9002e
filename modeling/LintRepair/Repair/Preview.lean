import LintRepair.Diff.Render
import LintRepair.Failure
import LintRepair.Repair.Basic
import LintRepair.Text.Position

/-!
# Previews

A preview leaves the content alone and describes every failure with all its fixes: the place of the
failure, its message, and for each fix a number, its label, and the line diff of what it alone would
do. A fix that does not fit the source spoils the whole preview.
-/

namespace LintRepair.Preview

/-- The place and the message of a failure, on one line. Lines and characters count from one. -/
def heading (file source : String) (failure : Failure) : String :=
  let place := Text.position source failure.start.toNat
  file ++ "[" ++ toString (place.line + 1) ++ ", " ++ toString (place.character + 1) ++ "]: " ++
    failure.message ++ "\n"

/-- What a fix alone would change. -/
def fixDiff (source : String) (fix : Fix) : Except PatchError String := do
  let patched ← fix.apply source
  return Diff.render source patched

def fixEntry (source : String) (number : Nat) (fix : Fix) : Except PatchError String := do
  let diff ← fixDiff source fix
  return "#" ++ toString number ++ ": " ++ fix.label ++ "\n" ++ diff

def failureEntry (file source : String) (failure : Failure) : Except PatchError String := do
  let entries ← (failure.fixes.zipIdx 1).mapM fun (fix, number) => fixEntry source number fix
  let title := if failure.hasFixes then "Suggested fixes:\n" else ""
  return heading file source failure ++ title ++ String.join entries

/-- Describes all failures of a file. -/
def repair (file source : String) (failures : List Failure) : Except RepairError Repair := do
  let entries ← (failures.mapM (failureEntry file source)).mapError fun cause => ⟨file, cause⟩
  return { file, content := source, message := String.join entries }

/-- The fixes of a list that are tried: all up to, and with, the first one that does not fit. -/
def tried (source : String) : List Fix → List Fix
  | [] => []
  | fix :: rest =>
      match Patch.check source fix.replacements with
      | .ok () => fix :: tried source rest
      | .error _ => [fix]

/-- The log of a preview: the steps of every fix that is tried. -/
def events (source : String) (failures : List Failure) : List Log.Event :=
  (tried source (failures.flatMap Failure.fixes)).flatMap fun fix =>
    Patch.events source fix.replacements

end LintRepair.Preview
