import LintRepair.Toml.Read

/-!
# Configurations

A configuration is the contents of a `lintfix.toml` file, as it was written: a section `fix` and a
section `output`, each of which may be missing, and so may every key. Unknown keys are passed over.
A section may also be given as an array of its values in the order of its keys.
-/

namespace LintRepair

/-- What a configuration file says, before anything of it has been checked. -/
structure Config where
  method : Option String := none
  severities : List String := []
  skipRules : List String := []
  mode : Option String := none
  dir : Option String := none
deriving DecidableEq, Repr

namespace Config

open Toml (Value)

/-- The values of a section by its keys, which come in their order. -/
def sectionValues? (keys : List String) : Value → Option (List (String × Value))
  | .table entries => some entries
  | .array items => some (keys.zip items)
  | _ => none

/-- The entries of the section that a document has under a name; none if it is missing. -/
def readSection (document : List (String × Value)) (name : String) (keys : List String) :
    Option (List (String × Value)) :=
  match Toml.lookup? name document with
  | some value => sectionValues? keys value
  | none => some []

def readText : Value → Option String
  | .text value => some value
  | _ => none

def readTexts : Value → Option (List String)
  | .array items => items.mapM readText
  | _ => none

/-- The text under a key, if the key is there. -/
def readText? (entries : List (String × Value)) (key : String) : Option (Option String) :=
  match Toml.lookup? key entries with
  | some value => (readText value).map some
  | none => some none

/-- The texts under a key; none if the key is not there. -/
def readTexts? (entries : List (String × Value)) (key : String) : Option (List String) :=
  match Toml.lookup? key entries with
  | some value => readTexts value
  | none => some []

/-- The configuration that a document holds, if its values have the right types. -/
def ofDocument? (document : List (String × Value)) : Option Config := do
  let fixes ← readSection document "fix" ["method", "severities", "skip_rules"]
  let output ← readSection document "output" ["mode", "dir"]
  return {
    method := ← readText? fixes "method"
    severities := ← readTexts? fixes "severities"
    skipRules := ← readTexts? fixes "skip_rules"
    mode := ← readText? output "mode"
    dir := ← readText? output "dir" }

def parse? (text : String) : Option Config := do
  let document ← Toml.parse? text
  ofDocument? document

end Config

end LintRepair
