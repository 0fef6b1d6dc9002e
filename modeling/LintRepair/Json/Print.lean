import LintRepair.Json.Value

/-!
# Writing JSON

A value is written either compactly, without any white space, or as a page: every item and member on
a line of its own, two blanks further in than the bracket around it. In strings, only quotes,
backslashes and control characters are escaped; all other characters stand for themselves. What is
written is what a value holds: a value that was read only in part ends where reading stopped.
-/

namespace LintRepair.Json

def hexDigitChar (n : Nat) : Char :=
  Nat.digitChar (n % 16)

/-- How one character is written in a string. -/
def escapedChar (c : Char) : List Char :=
  match c with
  | '"' => ['\\', '"']
  | '\\' => ['\\', '\\']
  | '\x08' => ['\\', 'b']
  | '\t' => ['\\', 't']
  | '\n' => ['\\', 'n']
  | '\x0c' => ['\\', 'f']
  | '\r' => ['\\', 'r']
  | c =>
      if c < ' ' then ['\\', 'u', '0', '0', hexDigitChar (c.toNat / 16), hexDigitChar c.toNat]
      else [c]

/-- A string in quotes. -/
def stringChars (text : String) : List Char :=
  '"' :: text.toList.flatMap escapedChar ++ ['"']

def Key.chars : Key → List Char
  | .text value => stringChars value
  | _ => []

/-- A number as its literal. -/
def Number.chars : Number → List Char
  | .natural n => Nat.toDigits 10 n
  | .negative n => '-' :: Nat.toDigits 10 n
  | .float minus size => (size.render minus).toList
  | .outOfRange => []

/-- A value that has no parts. -/
def Value.leafChars : Value → List Char
  | .null => ['n', 'u', 'l', 'l']
  | .bool true => ['t', 'r', 'u', 'e']
  | .bool false => ['f', 'a', 'l', 's', 'e']
  | .number value => value.chars
  | .text value => stringChars value
  | _ => []

/-! ## Compact form -/

mutual

def Value.compactChars : Value → List Char
  | .array items _ => '[' :: itemsChars items ++ [']']
  | .object members _ => '\x7b' :: membersChars members ++ ['\x7d']
  | .null => Value.leafChars .null
  | .bool value => Value.leafChars (.bool value)
  | .number value => Value.leafChars (.number value)
  | .text value => Value.leafChars (.text value)
  | .unpaired => []
  | .broken .. => []

def itemsChars : List Value → List Char
  | [] => []
  | [item] => item.compactChars
  | item :: next :: rest => item.compactChars ++ ',' :: itemsChars (next :: rest)

def membersChars : List (Key × Value) → List Char
  | [] => []
  | [(key, value)] => key.chars ++ ':' :: value.compactChars
  | (key, value) :: next :: rest =>
      key.chars ++ ':' :: value.compactChars ++ ',' :: membersChars (next :: rest)

end

/-- A value on one line, without white space. -/
def Value.compact (value : Value) : String :=
  String.ofList value.compactChars

/-! ## Pages -/

/-- The start of a line at a depth. -/
def lineStart (depth : Nat) : List Char :=
  '\n' :: List.replicate (2 * depth) ' '

mutual

/-- A value inside brackets at a depth. -/
def Value.pageChars (depth : Nat) : Value → List Char
  | .array [] _ => ['[', ']']
  | .array (item :: rest) _ =>
      '[' :: itemLines (depth + 1) (item :: rest) ++ lineStart depth ++ [']']
  | .object [] _ => ['\x7b', '\x7d']
  | .object (member :: rest) _ =>
      '\x7b' :: memberLines (depth + 1) (member :: rest) ++ lineStart depth ++ ['\x7d']
  | .null => Value.leafChars .null
  | .bool value => Value.leafChars (.bool value)
  | .number value => Value.leafChars (.number value)
  | .text value => Value.leafChars (.text value)
  | .unpaired => []
  | .broken .. => []

/-- Items on lines of their own, with commas between them. -/
def itemLines (depth : Nat) : List Value → List Char
  | [] => []
  | [item] => lineStart depth ++ item.pageChars depth
  | item :: next :: rest =>
      lineStart depth ++ item.pageChars depth ++ ',' :: itemLines depth (next :: rest)

/-- Members on lines of their own, with commas between them. -/
def memberLines (depth : Nat) : List (Key × Value) → List Char
  | [] => []
  | [(key, value)] => lineStart depth ++ key.chars ++ ':' :: ' ' :: value.pageChars depth
  | (key, value) :: next :: rest =>
      lineStart depth ++ key.chars ++ ':' :: ' ' :: value.pageChars depth ++
        ',' :: memberLines depth (next :: rest)

end

/-- A value as a page. -/
def Value.page (value : Value) : String :=
  String.ofList (value.pageChars 0)

end LintRepair.Json
