import LintRepair.Fix
import LintRepair.Json.Value
import LintRepair.Severity

/-!
# Why a report is refused

The text of a report can fail to be JSON, or be JSON of another shape than a report has, or have the
right shape and hold a failure that makes no sense. Only the first problem from left to right is
reported.
-/

namespace LintRepair.Report

/-- The first problem of a report. -/
inductive ReadError where
  | fault (fault : Json.Fault)
  /-- A value of another type than is wanted in its place. -/
  | wrongType (found wanted : String)
  /-- An integer out of the range that is wanted in its place. -/
  | outOfRange (value : Int) (wanted : String)
  /-- An array that stands for a record and ends before a field that has no default. -/
  | tooFew (count : Nat) (record : String) (fields : Nat)
  | missing (field : String)
  | duplicate (field : String)
  | unknownSeverity (name : String)
  /-- A failure whose end lies before its start. -/
  | inverted (rule : String) (start stop : UInt64)
  /-- A list of replacements that is no fix. -/
  | fix (error : FixError)
deriving DecidableEq, Repr

/-- The names of all severities for a message. -/
def severityNames : String :=
  String.intercalate ", " (Severity.all.map fun severity => "`" ++ severity.name ++ "`")

/-- The wording of a read error. A text that is no JSON has none. -/
def ReadError.message : ReadError → String
  | .fault _ => ""
  | .wrongType found wanted => "invalid type: " ++ found ++ ", expected " ++ wanted
  | .outOfRange value wanted =>
      "invalid value: integer `" ++ toString value ++ "`, expected " ++ wanted
  | .tooFew count record fields =>
      "invalid length " ++ toString count ++ ", expected struct " ++ record ++ " with " ++
        toString fields ++ " elements"
  | .missing field => "missing field `" ++ field ++ "`"
  | .duplicate field => "duplicate field `" ++ field ++ "`"
  | .unknownSeverity name => "unknown variant `" ++ name ++ "`, expected one of " ++ severityNames
  | .inverted rule start stop =>
      "failure from rule `" ++ rule ++ "` ends (" ++ toString stop.toNat ++
        ") before it starts (" ++ toString start.toNat ++ ")"
  | .fix error => error.message

end LintRepair.Report
