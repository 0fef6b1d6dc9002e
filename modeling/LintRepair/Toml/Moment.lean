import LintRepair.Text.Hex

/-!
# Dates and times

A moment is written as a date, a time of day, or a date and a time with or without an offset from
universal time. All parts have a fixed number of digits but the fraction of a second, which has any
number from one on. Days must exist in their month; a minute may have a second 60, for the sake of
leap seconds.
-/

namespace LintRepair.Toml

/-- The number written by exactly so many digits at the front, if it lies in a range. -/
def takeNumber (count low high : Nat) (chars : List Char) : Option (Nat × List Char) :=
  let digits := chars.take count
  let n := Text.ofDigits 10 (digits.map Text.digitValue)
  if digits.length = count && digits.all Char.isDigit && low ≤ n && n ≤ high then
    some (n, chars.drop count)
  else none

/-- The characters behind a certain one. -/
def takeMark (mark : Char) : List Char → Option (List Char)
  | c :: rest => if c = mark then some rest else none
  | [] => none

/-- Whether a year has a day more than others. -/
def isLeapYear (year : Nat) : Bool :=
  (year % 4 == 0 && year % 100 != 0) || year % 400 == 0

def daysIn (year month : Nat) : Nat :=
  if month = 2 then (if isLeapYear year then 29 else 28)
  else if month ∈ [4, 6, 9, 11] then 30
  else 31

/-- The characters behind a date. -/
def takeDate (chars : List Char) : Option (List Char) := do
  let (year, chars) ← takeNumber 4 0 9999 chars
  let chars ← takeMark '-' chars
  let (month, chars) ← takeNumber 2 1 12 chars
  let chars ← takeMark '-' chars
  let (_, chars) ← takeNumber 2 1 (daysIn year month) chars
  return chars

/-- The characters behind the fraction of a second, if there is one. -/
def takeFraction : List Char → Option (List Char)
  | '.' :: c :: rest => if c.isDigit then some (rest.dropWhile Char.isDigit) else none
  | ['.'] => none
  | chars => some chars

/-- The characters behind a time of day. -/
def takeTime (chars : List Char) : Option (List Char) := do
  let (_, chars) ← takeNumber 2 0 23 chars
  let chars ← takeMark ':' chars
  let (_, chars) ← takeNumber 2 0 59 chars
  let chars ← takeMark ':' chars
  let (_, chars) ← takeNumber 2 0 60 chars
  takeFraction chars

/-- Whether the characters are an offset from universal time, or nothing. -/
def isOffset : List Char → Bool
  | [] => true
  | c :: rest =>
      if c = 'Z' ∨ c = 'z' then rest.isEmpty
      else if c = '+' ∨ c = '-' then
        let offset := do
          let (_, chars) ← takeNumber 2 0 23 rest
          let chars ← takeMark ':' chars
          takeNumber 2 0 59 chars
        (offset.map fun (_, chars) => chars.isEmpty) == some true
      else false

/-- Whether the characters write a moment. A letter or a blank stands between date and time. -/
def isMoment (chars : List Char) : Bool :=
  match takeDate chars with
  | some [] => true
  | some (c :: rest) =>
      (c == 'T' || c == 't' || c == ' ') && ((takeTime rest).map isOffset == some true)
  | none => (takeTime chars).map List.isEmpty == some true

end LintRepair.Toml
