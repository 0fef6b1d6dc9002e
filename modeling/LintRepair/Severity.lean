import LintRepair.Text.Blank

/-!
# Severities

How serious a violation is. People may write the name of a severity between blanks and in any letter
case; data files hold it exactly as it is.
-/

namespace LintRepair

/-- How serious a violation is, least first. -/
inductive Severity where
  | info | warning | error
deriving DecidableEq, Repr, Inhabited

namespace Severity

def all : List Severity := [.info, .warning, .error]

def name : Severity → String
  | .info => "info"
  | .warning => "warning"
  | .error => "error"

/-- The severity that has exactly this name. -/
def ofName? (text : String) : Option Severity :=
  all.find? fun severity => severity.name == text

/-- The severity that a person means by `text`. -/
def parse? (text : String) : Option Severity :=
  ofName? (Text.lower (Text.trim text))

/-- The answer to a text that names no severity. -/
def unknownMessage (text : String) : String :=
  "unknown severity `" ++ text ++ "` (expected info, warning or error)"

end Severity

end LintRepair
