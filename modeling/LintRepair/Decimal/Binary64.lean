/-!
# Numbers of the binary64 format

A nonnegative finite number of the format is a whole number of at most 53 bits times a power of two
between `-1074` and `971`. Every operation here computes its exact result as a quotient of natural
numbers and rounds it to the nearest number of the format, ties to the even mantissa; a result that
lies above the format has no answer.
-/

namespace LintRepair.Decimal

/-- The number `mantissa · 2 ^ exponent`. -/
structure Binary64 where
  mantissa : Nat
  exponent : Int
deriving DecidableEq, Repr, Inhabited

/-- The quotient rounded to the nearest whole number, a half to the even one. -/
def roundDiv (num den : Nat) : Nat :=
  let quotient := num / den
  let twice := 2 * (num % den)
  if den < twice ∨ (twice = den ∧ quotient % 2 = 1) then quotient + 1 else quotient

/-- The largest `e` with `2 ^ e ≤ num / den`, for a positive quotient. -/
def log2Quotient (num den : Nat) : Int :=
  let guess : Int := (num.log2 : Int) - (den.log2 : Int)
  if den * Nat.pow 2 guess.toNat ≤ num * Nat.pow 2 (-guess).toNat then guess else guess - 1

namespace Binary64

def minExponent : Int := -1074

def maxExponent : Int := 971

/-- The least mantissa of 53 bits, `2 ^ 52`. Smaller ones occur at the smallest exponent only. -/
def leastNormal : Nat := 0x10000000000000

def zero : Binary64 := ⟨0, minExponent⟩

def num (x : Binary64) : Nat := x.mantissa * Nat.pow 2 x.exponent.toNat

def den (x : Binary64) : Nat := Nat.pow 2 (-x.exponent).toNat

/-- The number of the format nearest to a quotient. -/
def nearest? (num den : Nat) : Option Binary64 :=
  if num = 0 then some zero
  else
    let exponent := max (log2Quotient num den - 52) minExponent
    let mantissa := roundDiv (num * Nat.pow 2 (-exponent).toNat) (den * Nat.pow 2 exponent.toNat)
    let rounded : Binary64 :=
      if mantissa = 2 * leastNormal then ⟨leastNormal, exponent + 1⟩ else ⟨mantissa, exponent⟩
    if maxExponent < rounded.exponent then none else some rounded

/-- The product of two numbers. -/
def mul? (x y : Binary64) : Option Binary64 :=
  nearest? (x.num * y.num) (x.den * y.den)

/-- The quotient of a number by ten to the power `n`, taken as a number of the format. -/
def divPowerOfTen (x : Binary64) (n : Nat) : Binary64 :=
  match nearest? (Nat.pow 10 n) 1 with
  | some power => (nearest? (x.num * power.den) (x.den * power.num)).getD zero
  | none => zero

/-- The product of a number with ten to the power `n`, taken as a number of the format. -/
def mulPowerOfTen? (x : Binary64) (n : Nat) : Option Binary64 :=
  (nearest? (Nat.pow 10 n) 1).bind x.mul?

/-- The largest power of ten that is a number of the format. -/
def maxPowerOfTen : Nat := 308

/-- Divides by a power of ten of any size, in steps of at most `maxPowerOfTen` digits. -/
def shiftDown (x : Binary64) (n : Nat) : Binary64 :=
  if n ≤ maxPowerOfTen then x.divPowerOfTen n
  else if x.mantissa = 0 then x
  else shiftDown (x.divPowerOfTen maxPowerOfTen) (n - maxPowerOfTen)
termination_by n
decreasing_by simp_all [maxPowerOfTen]; omega

/-- The number written as `significand · 10 ^ exponent`. The significand and the power of ten are
each rounded before they are combined, so the result can differ from the nearest number by a unit
in the last place. -/
def ofDecimal? (significand : Nat) (exponent : Int) : Option Binary64 := do
  let start ← nearest? significand 1
  if exponent < 0 then
    return start.shiftDown (-exponent).toNat
  else if exponent.toNat ≤ maxPowerOfTen then
    start.mulPowerOfTen? exponent.toNat
  else if start.mantissa = 0 then
    return start
  else none

end Binary64

end LintRepair.Decimal
