import LintRepair.Decimal.Binary64
import LintRepair.Toml.Moment
import LintRepair.Toml.Value

/-!
# Scalars without quotes

Booleans, integers, floating-point numbers and moments are written without quotes. Underscores may
stand between two digits. A decimal number has no zero in front, integers fit into 64 bits with
their sign, and numbers of other bases have none; a floating-point number must not be larger than
any of the binary64 format.
-/

namespace LintRepair.Toml

/-- The digits of a number in a base, without the underscores between them. `afterDigit` says
whether a digit stands before. -/
def digits? (base : Nat) (afterDigit : Bool) : List Char → Option (List Nat)
  | [] => if afterDigit then some [] else none
  | c :: rest =>
      if c = '_' then
        if afterDigit && !rest.isEmpty then digits? base false rest else none
      else
        match Text.hexDigit? c with
        | some digit => if digit < base then (digits? base true rest).map (digit :: ·) else none
        | none => none

/-- A sign at the front, true for minus, and the characters behind it. -/
def takeSign : List Char → Bool × List Char
  | '-' :: rest => (true, rest)
  | '+' :: rest => (false, rest)
  | rest => (false, rest)

/-- The digits of a decimal number without a zero in front. -/
def wholeDigits? (chars : List Char) : Option (List Nat) :=
  match digits? 10 false chars with
  | some (0 :: _ :: _) => none
  | digits => digits

/-- The least natural number that is no 64-bit integer, `2 ^ 63`. -/
def integerLimit : Nat := 0x8000000000000000

/-- The integer that is written. -/
def integer? (chars : List Char) : Option Int :=
  let natural (base : Nat) (digits : List Char) : Option Int := do
    let n := Text.ofDigits base (← digits? base false digits)
    if n < integerLimit then some n else none
  match chars with
  | '0' :: 'x' :: rest => natural 16 rest
  | '0' :: 'o' :: rest => natural 8 rest
  | '0' :: 'b' :: rest => natural 2 rest
  | chars => do
      let (negative, rest) := takeSign chars
      let n := Text.ofDigits 10 (← wholeDigits? rest)
      if negative then (if n ≤ integerLimit then some (-n) else none)
      else (if n < integerLimit then some n else none)

/-- Whether the decimal `digits · 10 ^ exponent` is no larger than the binary64 format allows. -/
def fitsFloat (digits : List Nat) (exponent : Int) : Bool :=
  let significant := digits.dropWhile (· = 0)
  let size := exponent + significant.length
  if significant.isEmpty || size < -400 then true
  else if 400 < size then false
  else
    let n := Text.ofDigits 10 significant
    (Decimal.Binary64.nearest? (n * Nat.pow 10 exponent.toNat)
      (Nat.pow 10 (-exponent).toNat)).isSome

/-- Whether the characters, which have no sign, write a floating-point number. -/
def isUnsignedFloat (chars : List Char) : Bool :=
  if chars = ['i', 'n', 'f'] || chars = ['n', 'a', 'n'] then true
  else
    let isExponent (c : Char) : Bool := c == 'e' || c == 'E'
    let mantissa := chars.takeWhile fun c => !isExponent c
    let whole := mantissa.takeWhile (· ≠ '.')
    let fraction := (mantissa.dropWhile (· ≠ '.')).drop 1
    let power := (chars.dropWhile fun c => !isExponent c).drop 1
    let hasFraction := mantissa.contains '.'
    let hasPower := chars.any isExponent
    let (down, powerDigits) := takeSign power
    let parts := do
      let whole ← wholeDigits? whole
      let fraction ← if hasFraction then digits? 10 false fraction else some []
      let power ← if hasPower then digits? 10 false powerDigits else some []
      let size : Int := Text.ofDigits 10 power
      return fitsFloat (whole ++ fraction) ((if down then -size else size) - fraction.length)
    (hasFraction || hasPower) && parts == some true

def scalar? (chars : List Char) : Option Value :=
  match chars with
  | ['t', 'r', 'u', 'e'] => some (.boolean true)
  | ['f', 'a', 'l', 's', 'e'] => some (.boolean false)
  | chars =>
      match integer? chars with
      | some n => some (.integer n)
      | none =>
          if isUnsignedFloat (takeSign chars).2 then some (.float (String.ofList chars))
          else if isMoment chars then some (.moment (String.ofList chars))
          else none

/-- Whether a character may belong to a scalar. -/
def isScalarChar (c : Char) : Bool :=
  c.isAlphanum || c == '_' || c == '+' || c == '-' || c == '.' || c == ':'

/-- Whether the characters are a date that a blank and a time of day follow. -/
def precedesTime (chars rest : List Char) : Bool :=
  takeDate chars == some [] &&
    match rest with
    | ' ' :: c :: _ => c.isDigit
    | _ => false

/-- Reads a scalar. A date and a time of day may have a blank between them. -/
def readScalar (chars : List Char) : Option (Value × List Char) := do
  let first := chars.takeWhile isScalarChar
  let rest := chars.dropWhile isScalarChar
  if precedesTime first rest then
    let behind := rest.drop 1
    let value ← scalar? (first ++ ' ' :: behind.takeWhile isScalarChar)
    return (value, behind.dropWhile isScalarChar)
  else
    let value ← scalar? first
    return (value, rest)

end LintRepair.Toml
