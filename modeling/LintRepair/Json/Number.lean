import LintRepair.Decimal.Shortest
import LintRepair.Text.Hex

/-!
# JSON numbers

The literal of a JSON number is kept as its digits, and `Number.ofLiteral` says what it stands for:
a natural number below `2 ^ 64`, a negative one down to `-2 ^ 63`, or else a number of the binary64
format. A literal with a fraction or an exponent, and minus zero, are always of the latter kind. A
literal too large for the format stands for no number.
-/

namespace LintRepair.Json

/-- The parts of a number literal. `exponent` holds the sign of the exponent, true for minus, and
its digits. -/
structure Literal where
  negative : Bool
  whole : List Nat
  fraction : List Nat := []
  exponent : Option (Bool × List Nat) := none
deriving DecidableEq, Repr

/-- What a number literal stands for. -/
inductive Number where
  /-- A natural number below `2 ^ 64`. -/
  | natural (n : Nat)
  /-- Minus `n`, which is positive and at most `2 ^ 63`. -/
  | negative (n : Nat)
  /-- A number of the binary64 format, true for minus. -/
  | float (minus : Bool) (size : Decimal.Binary64)
  /-- Nothing: the literal is too large. -/
  | outOfRange
deriving DecidableEq, Repr

namespace Number

/-- Appends digits to a significand as long as it stays below `2 ^ 64`; the rest comes back. -/
def absorb : Nat → List Nat → Nat × List Nat
  | significand, [] => (significand, [])
  | significand, digit :: rest =>
      if significand * 10 + digit < UInt64.size then absorb (significand * 10 + digit) rest
      else (significand, digit :: rest)

/-- The largest exponent that is told apart from larger ones, `2 ^ 31 - 1`. -/
def exponentLimit : Nat := 0x7FFFFFFF

/-- A decimal as a number of the binary64 format. -/
def ofDecimal (minus : Bool) (significand : Nat) (exponent : Int) : Number :=
  match Decimal.Binary64.ofDecimal? significand exponent with
  | some size => .float minus size
  | none => .outOfRange

/-- The number with a fraction or an exponent: digits that no longer fit the significand only shift
it, and an exponent past the limit makes the number zero or too large. -/
def ofParts (literal : Literal) : Number :=
  let (first, unused) := absorb 0 literal.whole
  let (significand, unread) := absorb first literal.fraction
  let shift : Int :=
    (unused.length : Int) - ((literal.fraction.length : Int) - (unread.length : Int))
  match literal.exponent with
  | none => ofDecimal literal.negative significand shift
  | some (down, digits) =>
      let size := Text.ofDigits 10 digits
      if exponentLimit < size then
        if significand ≠ 0 ∧ ¬ down then .outOfRange
        else .float literal.negative Decimal.Binary64.zero
      else ofDecimal literal.negative significand (if down then shift - size else shift + size)

/-- What a literal stands for. -/
def ofLiteral (literal : Literal) : Number :=
  match literal.fraction, literal.exponent with
  | [], none =>
      let n := Text.ofDigits 10 literal.whole
      if !literal.negative && n < UInt64.size then .natural n
      else if literal.negative && 0 < n && n ≤ 0x8000000000000000 then .negative n
      else ofParts literal
  | _, _ => ofParts literal

def describe : Number → String
  | .natural n => "integer `" ++ toString n ++ "`"
  | .negative n => "integer `-" ++ toString n ++ "`"
  | .float minus size => "floating point `" ++ size.render minus ++ "`"
  | .outOfRange => ""

end Number

end LintRepair.Json
