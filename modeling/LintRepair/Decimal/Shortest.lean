import LintRepair.Decimal.Binary64

/-!
# The shortest decimal of a number

A number of the binary64 format is written with the fewest digits that read back as that number and,
among decimals of that length, the nearest. `shortest` walks through the lengths from one to
seventeen digits; for each it looks at the two neighbours of the number among the decimals of that
length, and stops at the first length for which one of them lies in the interval of reals that round
to the number.
-/

namespace LintRepair.Decimal

/-- The decimal `digits · 10 ^ exponent`. -/
structure Numeral where
  digits : Nat
  exponent : Int
deriving DecidableEq, Repr

/-- The number of decimal digits of a natural number; one for zero. -/
def digitCount (n : Nat) : Nat :=
  (Nat.toDigits 10 n).length

/-- The largest `p` with `10 ^ p ≤ num / den`, for a positive quotient. -/
def log10Quotient (num den : Nat) : Int :=
  if den ≤ num then (digitCount (num / den) : Int) - 1
  else
    let guess := digitCount (den / num)
    if den ≤ num * Nat.pow 10 (guess - 1) then -((guess : Int) - 1) else -(guess : Int)

/-- The decimal of `length` digits nearest to `x`, if it or its neighbour on the other side of `x`
rounds to `x`. Everything is measured in quarters of the last place of `x`, since the interval ends
half a place away, or a quarter below the least mantissa of an exponent. -/
def decimalOfLength? (x : Binary64) (length : Nat) : Option Numeral :=
  let exponent := log10Quotient x.num x.den - ((length : Int) - 1)
  let quarter := x.exponent - 2
  let unit := Nat.pow 10 exponent.toNat * Nat.pow 2 (-quarter).toNat
  let scale := Nat.pow 2 quarter.toNat * Nat.pow 10 (-exponent).toNat
  let value := 4 * x.mantissa * scale
  let below :=
    if x.mantissa = Binary64.leastNormal ∧ Binary64.minExponent < x.exponent then 1 else 2
  let low := (4 * x.mantissa - below) * scale
  let high := (4 * x.mantissa + 2) * scale
  let rounds (point : Nat) : Bool :=
    if x.mantissa % 2 = 0 then low ≤ point && point ≤ high else low < point && point < high
  let floor := value / unit
  let remainder := value % unit
  let floorFirst := 2 * remainder < unit || (2 * remainder == unit && floor % 2 == 0)
  let order := if floorFirst then [floor, floor + 1] else [floor + 1, floor]
  (order.find? fun digits => rounds (digits * unit)).map fun digits => ⟨digits, exponent⟩

/-- The same decimal without zeros at the end of its digits. -/
def Numeral.trimmed (d : Numeral) : Numeral :=
  let zeros := ((Nat.toDigits 10 d.digits).reverse.takeWhile (· = '0')).length
  if d.digits = 0 then ⟨0, 0⟩ else ⟨d.digits / Nat.pow 10 zeros, d.exponent + zeros⟩

/-- The shortest decimal that reads back as a positive number. -/
def shortest (x : Binary64) : Numeral :=
  (((List.range 17).findSome? fun n => decimalOfLength? x (n + 1)).getD ⟨0, 0⟩).trimmed

/-! ## Writing a decimal -/

/-- When the exponent of the first digit lies in this range, a number is written without an
exponent. -/
def positional (point : Int) : Bool :=
  -5 ≤ point && point ≤ 15

/-- An exponent with its sign and at least two digits. -/
def exponentText (exponent : Int) : String :=
  let digits := toString exponent.natAbs
  (if exponent < 0 then "-" else "+") ++ (if digits.length < 2 then "0" ++ digits else digits)

/-- A decimal in positional notation, with at least one digit on each side of the point, or with an
exponent after the first digit. -/
def Numeral.render (d : Numeral) : String :=
  let digits := Nat.toDigits 10 d.digits
  let point := d.exponent + (digits.length : Int) - 1
  if !positional point then
    let rest := digits.drop 1
    String.ofList (digits.take 1) ++ (if rest.isEmpty then "" else "." ++ String.ofList rest) ++
      "e" ++ exponentText point
  else if point < 0 then
    "0." ++ String.ofList (List.replicate (-point - 1).toNat '0' ++ digits)
  else
    let whole := digits.take (point.toNat + 1)
    let rest := digits.drop (point.toNat + 1)
    String.ofList (whole ++ List.replicate (point.toNat + 1 - whole.length) '0') ++ "." ++
      (if rest.isEmpty then "0" else String.ofList rest)

/-- A number of the format, with its sign, as its shortest decimal. -/
def Binary64.render (negative : Bool) (x : Binary64) : String :=
  (if negative then "-" else "") ++
    (if x.mantissa = 0 then "0.0" else (shortest x).render)

end LintRepair.Decimal
