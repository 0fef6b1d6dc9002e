import LintRepair.Json.Number
import LintRepair.Text.Quoted

/-!
# JSON values

A `Value` holds a JSON text as far as it could be read. Reading stops at the first place where the
text is no JSON or ends too early; that place is a leaf `broken`, and every array and object around
it remembers the fault as its own end. So the values read before the place are all there, in the
order of the text, and whoever looks at a value from left to right meets the fault exactly when the
text reaches it.

A few texts are fine as long as nobody asks for their value. A string with half of a surrogate pair
and a number too large have values of their own, `unpaired` and `outOfRange`. A text that ends
within a number is truncated for those who want the number, and malformed for those who pass over
it; so `broken` holds two faults.
-/

namespace LintRepair.Json

/-- Why a text is no JSON. -/
inductive Fault where
  /-- Some character is out of place. -/
  | malformed
  /-- The text ends too early. -/
  | truncated
deriving DecidableEq, Repr

/-- What stands where an object has a key. -/
inductive Key where
  | text (value : String)
  /-- A string with half of a surrogate pair. -/
  | unpaired
  /-- A string that could not be read to its end, for those who read it and those who skip it. -/
  | broken (read skipped : Fault)
  /-- No string but something that messages call `found`, or the fault met by reading it. -/
  | other (found : Except Fault String)

/-- A JSON text as far as it could be read. -/
inductive Value where
  | null
  | bool (value : Bool)
  | number (value : Number)
  | text (value : String)
  | unpaired
  /-- The items before the closing bracket, or before the fault that is there instead. -/
  | array (items : List Value) (fault : Option Fault)
  /-- The members before the closing brace, or before the fault that is there instead. -/
  | object (members : List (Key × Value)) (fault : Option Fault)
  /-- The place where reading stopped, for those who read the value and those who skip it. -/
  | broken (read skipped : Fault)
deriving Inhabited

namespace Value

def natural (n : Nat) : Value :=
  .number (.natural n)

def integer (n : Int) : Value :=
  .number (if n < 0 then .negative n.natAbs else .natural n.toNat)

def list (items : List Value) : Value :=
  .array items none

/-- An object with the given members, in their order. -/
def record (members : List (String × Value)) : Value :=
  .object (members.map fun (key, value) => (Key.text key, value)) none

/-- The fault that is met by passing over a value. -/
def skipFault? : Value → Option Fault
  | .array _ fault | .object _ fault => fault
  | .broken _ skipped => some skipped
  | _ => none

/-- How messages call a value, or the fault that is met by reading it. Arrays and objects are known
by their first character. -/
def describe : Value → Except Fault String
  | .null => .ok "null"
  | .bool value => .ok ("boolean `" ++ toString value ++ "`")
  | .number .outOfRange => .error .malformed
  | .number value => .ok value.describe
  | .text value => .ok ("string " ++ Text.quoted value)
  | .unpaired => .error .malformed
  | .array .. => .ok "sequence"
  | .object .. => .ok "map"
  | .broken read _ => .error read

/-- A value in the place of a key. -/
def asKey : Value → Key
  | .text value => .text value
  | .unpaired => .unpaired
  | .broken read skipped => .broken read skipped
  | value => .other value.describe

end Value

/-- The fault that is met by passing over a key. -/
def Key.skipFault? : Key → Option Fault
  | .text _ | .unpaired => none
  | .broken _ skipped => some skipped
  | .other _ => some .malformed

end LintRepair.Json
