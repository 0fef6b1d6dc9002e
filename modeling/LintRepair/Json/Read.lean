import LintRepair.Json.Value
import LintRepair.Text.Bytes
import LintRepair.Text.Hex

/-!
# Reading JSON

`Document.ofText` reads one JSON value and notes whether anything but white space follows it. The
readers below take the characters that are left and give back what they have read together with the
characters behind it; after a fault nothing is left. A string is cut into characters and escapes; a
code unit written as an escape is half of a surrogate pair unless the other half follows at once.
-/

namespace LintRepair.Json

/-- The characters that may stand between the parts of a JSON text. -/
def isSpace (c : Char) : Bool :=
  c == ' ' || c == '\n' || c == '\t' || c == '\r'

/-- The characters from the next part on. -/
def skipSpace (chars : List Char) : List Char :=
  chars.dropWhile isSpace

/-- Reading stopped at a place that has the same fault for all. -/
def stopped (fault : Fault) : Value × List Char :=
  (.broken fault fault, [])

/-! ## Words and numbers -/

/-- Reads the rest of a word that stands for `value`. -/
def readWord (value : Value) : List Char → List Char → Value × List Char
  | [], chars => (value, chars)
  | _ :: _, [] => stopped .truncated
  | expected :: word, c :: chars =>
      if c = expected then readWord value word chars else stopped .malformed

/-- The digits at the front, and the characters behind them. -/
def takeDigits (chars : List Char) : List Nat × List Char :=
  ((chars.takeWhile Char.isDigit).map Text.digitValue, chars.dropWhile Char.isDigit)

/-- A digit is missing at the front of `chars`. At the end of the text this is a fault of another
kind for those who pass over the number. -/
def missingDigit (chars : List Char) : Value × List Char :=
  if chars.isEmpty then (.broken .truncated .malformed, []) else stopped .malformed

/-- Reads an exponent, if there is one, behind a literal without it. -/
def readExponent (literal : Literal) : List Char → Value × List Char
  | [] => (.number (.ofLiteral literal), [])
  | c :: chars =>
      if c = 'e' ∨ c = 'E' then
        let (down, unsigned) :=
          match chars with
          | '+' :: rest => (false, rest)
          | '-' :: rest => (true, rest)
          | rest => (false, rest)
        match takeDigits unsigned with
        | ([], _) => missingDigit unsigned
        | (digits, rest) =>
            (.number (.ofLiteral { literal with exponent := some (down, digits) }), rest)
      else (.number (.ofLiteral literal), c :: chars)

/-- Reads a number behind its sign. A zero in front ends the digits before the point. -/
def readNumber (negative : Bool) (chars : List Char) : Value × List Char :=
  match takeDigits chars with
  | ([], _) => missingDigit chars
  | (0 :: _ :: _, _) => stopped .malformed
  | (whole, '.' :: rest) =>
      match takeDigits rest with
      | ([], _) => missingDigit rest
      | (fraction, rest) => readExponent { negative, whole, fraction } rest
  | (whole, rest) => readExponent { negative, whole } rest

/-! ## Strings -/

/-- The code unit written by four hexadecimal digits at the front. Fewer than four bytes are too few
whatever they are. -/
def codeUnit (chars : List Char) : Except Fault Nat :=
  if (chars.take 4).length = 4 then
    match Text.hexNumber? (chars.take 4) with
    | some unit => .ok unit
    | none => .error .malformed
  else .error (if Text.byteCount chars < 4 then .truncated else .malformed)

def isLeading (unit : Nat) : Bool :=
  0xd800 ≤ unit && unit ≤ 0xdbff

def isTrailing (unit : Nat) : Bool :=
  0xdc00 ≤ unit && unit ≤ 0xdfff

/-- The character of a surrogate pair. -/
def paired (leading trailing : Nat) : Char :=
  Char.ofNat (0x10000 + (leading - 0xd800) * 0x400 + (trailing - 0xdc00))

/-- What must follow the first half of a pair: the escape of the second half. Anything else is a
fault for those who read the string. -/
def secondHalf : List Char → Except Fault Nat
  | [] => .error .truncated
  | '\\' :: [] => .error .truncated
  | '\\' :: 'u' :: chars =>
      match codeUnit chars with
      | .ok unit => if isTrailing unit then .ok unit else .error .malformed
      | .error fault => .error fault
  | _ => .error .malformed

/-- The character that an escape of one letter stands for. -/
def escaped? : Char → Option Char
  | '"' => some '"'
  | '\\' => some '\\'
  | '/' => some '/'
  | 'b' => some '\x08'
  | 'f' => some '\x0c'
  | 'n' => some '\n'
  | 'r' => some '\r'
  | 't' => some '\t'
  | _ => none

/-- The characters of a string so far, the last one first, or the fault that its first unpaired half
is for those who read the string. -/
abbrev Scanned := Except Fault (List Char)

def Scanned.push (scanned : Scanned) (c : Char) : Scanned :=
  scanned.map (c :: ·)

/-- An unpaired half; the first one counts. -/
def Scanned.spoil (scanned : Scanned) (fault : Fault) : Scanned :=
  scanned.bind fun _ => .error fault

def Scanned.value : Scanned → Value
  | .ok chars => .text (String.ofList chars.reverse)
  | .error _ => .unpaired

/-- The string cannot be continued. -/
def Scanned.stopped (scanned : Scanned) (fault : Fault) : Value × List Char :=
  match scanned with
  | .ok _ => (.broken fault fault, [])
  | .error read => (.broken read fault, [])

/-- Reads a string behind its opening quote. -/
def readText (scanned : Scanned) (chars : List Char) : Value × List Char :=
  match chars with
  | [] => scanned.stopped .truncated
  | '"' :: rest => (scanned.value, rest)
  | '\\' :: [] => scanned.stopped .truncated
  | '\\' :: 'u' :: rest =>
      match codeUnit rest with
      | .error fault => scanned.stopped fault
      | .ok unit =>
          if isTrailing unit then readText (scanned.spoil .malformed) (rest.drop 4)
          else if isLeading unit then
            match secondHalf (rest.drop 4) with
            | .ok second => readText (scanned.push (paired unit second)) (rest.drop 10)
            | .error fault => readText (scanned.spoil fault) (rest.drop 4)
          else readText (scanned.push (Char.ofNat unit)) (rest.drop 4)
  | '\\' :: letter :: rest =>
      match escaped? letter with
      | some c => readText (scanned.push c) rest
      | none => scanned.stopped .malformed
  | c :: rest =>
      if c < ' ' then scanned.stopped .malformed else readText (scanned.push c) rest
termination_by chars.length
decreasing_by all_goals simp only [List.length_cons, List.length_drop]; omega

/-! ## Values

An array announces an item with its opening bracket, unless the closing one follows at once, and
with every comma; so do objects. The readers recurse on an allowance that is larger than the text
needs. -/

mutual

def readValue : Nat → List Char → Value × List Char
  | 0, _ => stopped .malformed
  | fuel + 1, chars =>
      match skipSpace chars with
      | [] => stopped .truncated
      | 'n' :: rest => readWord .null ['u', 'l', 'l'] rest
      | 't' :: rest => readWord (.bool true) ['r', 'u', 'e'] rest
      | 'f' :: rest => readWord (.bool false) ['a', 'l', 's', 'e'] rest
      | '"' :: rest => readText (.ok []) rest
      | '[' :: rest =>
          match skipSpace rest with
          | [] => (.array [] (some .truncated), [])
          | ']' :: rest => (.array [] none, rest)
          | rest =>
              let (items, fault, rest) := readItems fuel rest
              (.array items fault, rest)
      | '\x7b' :: rest =>
          match skipSpace rest with
          | [] => (.object [] (some .truncated), [])
          | '\x7d' :: rest => (.object [] none, rest)
          | rest =>
              let (members, fault, rest) := readMembers fuel rest
              (.object members fault, rest)
      | '-' :: rest => readNumber true rest
      | c :: rest => if c.isDigit then readNumber false (c :: rest) else stopped .malformed

/-- Reads the items of an array from an announced item on. -/
def readItems : Nat → List Char → List Value × Option Fault × List Char
  | 0, _ => ([], some .malformed, [])
  | fuel + 1, chars =>
      let (item, rest) := readValue fuel chars
      match item.skipFault? with
      | some fault => ([item], some fault, [])
      | none =>
          match skipSpace rest with
          | [] => ([item], some .truncated, [])
          | ']' :: rest => ([item], none, rest)
          | ',' :: rest =>
              let (items, fault, rest) := readItems fuel rest
              (item :: items, fault, rest)
          | _ => ([item], some .malformed, [])

/-- Reads the members of an object from an announced member on. A key that is no string, or that no
colon follows, is the last one. -/
def readMembers : Nat → List Char → List (Key × Value) × Option Fault × List Char
  | 0, _ => ([], some .malformed, [])
  | fuel + 1, chars =>
      let (key, rest) : Key × List Char :=
        match skipSpace chars with
        | [] => (.broken .truncated .truncated, [])
        | '"' :: rest =>
            let (value, rest) := readText (.ok []) rest
            (value.asKey, rest)
        | rest => (.other (readValue fuel rest).1.describe, [])
      match key.skipFault? with
      | some fault => ([(key, .broken fault fault)], some fault, [])
      | none =>
          match skipSpace rest with
          | [] => ([(key, .broken .truncated .truncated)], some .truncated, [])
          | ':' :: rest =>
              let (value, rest) := readValue fuel rest
              match value.skipFault? with
              | some fault => ([(key, value)], some fault, [])
              | none =>
                  match skipSpace rest with
                  | [] => ([(key, value)], some .truncated, [])
                  | '\x7d' :: rest => ([(key, value)], none, rest)
                  | ',' :: rest =>
                      let (members, fault, rest) := readMembers fuel rest
                      ((key, value) :: members, fault, rest)
                  | _ => ([(key, value)], some .malformed, [])
          | _ => ([(key, .broken .malformed .malformed)], some .malformed, [])

end

/-- A JSON text: its value, and whether anything but white space follows. -/
structure Document where
  value : Value
  followed : Bool

def Document.ofText (text : String) : Document :=
  let (value, rest) := readValue (2 * text.toList.length + 2) text.toList
  ⟨value, !(skipSpace rest).isEmpty⟩

end LintRepair.Json
