/-!
# Hexadecimal digits

Digits may be read in either letter case. They are written in lower case.
-/

namespace LintRepair.Text

def digitValue (c : Char) : Nat :=
  c.toNat - '0'.toNat

def hexDigit? (c : Char) : Option Nat :=
  if c.isDigit then some (digitValue c)
  else if 'a' ≤ c ∧ c ≤ 'f' then some (c.toNat - 'a'.toNat + 10)
  else if 'A' ≤ c ∧ c ≤ 'F' then some (c.toNat - 'A'.toNat + 10)
  else none

/-- The number that digits write in a base. -/
def ofDigits (base : Nat) (digits : List Nat) : Nat :=
  digits.foldl (fun n digit => n * base + digit) 0

/-- The number that hexadecimal digits write. -/
def hexNumber? (chars : List Char) : Option Nat :=
  (chars.mapM hexDigit?).map (ofDigits 16)

def hexText (n : Nat) : String :=
  String.ofList (Nat.toDigits 16 n)

end LintRepair.Text
