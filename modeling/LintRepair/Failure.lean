import LintRepair.Fix
import LintRepair.Severity

/-!
# Failures

A failure is one violation that a rule found in a file, with any number of fixes to choose from. The
first one is the candidate when fixes are applied; the others are only shown.
-/

namespace LintRepair

/-- A violation of `rule` in the bytes of `file` from `start` up to `stop`. -/
structure Failure where
  file : String
  rule : String
  start : UInt64
  stop : UInt64
  message : String
  severity : Severity
  fixes : List Fix
  ordered : start ≤ stop
deriving DecidableEq

namespace Failure

/-- A failure whose end is moved up to its start when it lies before it. -/
def clamped (file rule : String) (start stop : UInt64) (message : String)
    (severity : Severity := .error) (fixes : List Fix := []) : Failure where
  file := file
  rule := rule
  start := start
  stop := if start ≤ stop then stop else start
  message := message
  severity := severity
  fixes := fixes
  ordered := by
    split
    next hordered => exact hordered
    next => exact UInt64.le_refl start

/-- The fix that takes part when fixes are applied. -/
def candidate? (failure : Failure) : Option Fix :=
  failure.fixes.head?

def hasFixes (failure : Failure) : Bool :=
  !failure.fixes.isEmpty

end Failure

/-- The candidates of failures, in their order. -/
def candidates (failures : List Failure) : List Fix :=
  failures.filterMap Failure.candidate?

end LintRepair
