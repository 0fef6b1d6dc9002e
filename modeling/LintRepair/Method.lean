import LintRepair.Text.Blank

/-!
# Methods

What is done with the fixes of a file: apply those that do not conflict, describe all of them, or
nothing. The name of a method may be written between blanks, in any letter case, and with an
underscore for its hyphen.
-/

namespace LintRepair

/-- What is done with the fixes of a file. -/
inductive Method where
  /-- Select fixes that do not conflict and apply them. -/
  | inPlace
  /-- Leave the file alone and describe every suggested fix as a line diff. -/
  | diff
  /-- Leave the file alone. -/
  | off
deriving DecidableEq, Repr, Inhabited

namespace Method

def all : List Method := [.inPlace, .diff, .off]

def name : Method → String
  | .inPlace => "in-place"
  | .diff => "diff"
  | .off => "none"

/-- Hyphens for underscores. -/
def hyphenated (text : String) : String :=
  text.map fun c => if c = '_' then '-' else c

/-- The method that a person means by `text`. -/
def parse? (text : String) : Option Method :=
  let written := hyphenated (Text.lower (Text.trim text))
  all.find? fun method => method.name == written

/-- The answer to a text that names no method. -/
def unknownMessage (text : String) : String :=
  "unknown fixer `" ++ text ++ "` (expected in-place, diff or none)"

/-- Whether the content that a method makes is meant to be written back. -/
def writesContent : Method → Bool
  | .inPlace => true
  | .diff | .off => false

end Method

end LintRepair
