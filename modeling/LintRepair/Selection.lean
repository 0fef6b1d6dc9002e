import LintRepair.Fix
import LintRepair.Log

/-!
# Selecting fixes

Candidates are taken first come, first served: a fix is selected when it conflicts with no fix that
has been selected before it, and deferred otherwise. A deferred fix is in nobody's way.
-/

namespace LintRepair

/-- Candidates sorted out: the selected ones and the deferred ones, each in candidate order. -/
structure Selection where
  selected : List Fix := []
  remaining : List Fix := []
deriving DecidableEq

namespace Selection

/-- The first selected fix that `fix` conflicts with. -/
def blocker? (selection : Selection) (fix : Fix) : Option Fix :=
  selection.selected.find? fun accepted => decide (fix.Conflicts accepted)

/-- Puts one more candidate on its side. -/
def add (selection : Selection) (fix : Fix) : Selection :=
  match selection.blocker? fix with
  | some _ => { selection with remaining := selection.remaining ++ [fix] }
  | none => { selection with selected := selection.selected ++ [fix] }

def replacements (selection : Selection) : List Replacement :=
  selection.selected.flatMap Fix.replacements

/-- The log of adding candidates one after the other. -/
def events : Selection → List Fix → List Log.Event
  | _, [] => []
  | selection, fix :: rest =>
      (match selection.blocker? fix with
      | some blocker => Log.Event.fixDeferred fix.rule blocker.rule
      | none => Log.Event.fixSelected fix.rule) :: events (selection.add fix) rest

end Selection

/-- Sorts candidates out, in their order. -/
def select (candidates : List Fix) : Selection :=
  candidates.foldl Selection.add {}

end LintRepair
