/-!
# TOML values

The values of a TOML document. Settings are made of texts, arrays and tables only; the other scalars
are told apart and keep what they write.
-/

namespace LintRepair.Toml

/-- A value. The entries of a table have different keys. -/
inductive Value where
  | text (value : String)
  | integer (value : Int)
  /-- A floating-point number, as it is written. -/
  | float (literal : String)
  | boolean (value : Bool)
  /-- A date, a time of day, or both, as it is written. -/
  | moment (literal : String)
  | array (items : List Value)
  | table (entries : List (String × Value))
deriving Inhabited

/-- The value of a key. -/
def lookup? {α : Type} (key : String) (entries : List (String × α)) : Option α :=
  (entries.find? fun entry => entry.1 == key).map Prod.snd

end LintRepair.Toml
