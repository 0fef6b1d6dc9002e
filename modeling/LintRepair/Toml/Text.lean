import LintRepair.Text.Hex

/-!
# TOML strings

There are four kinds of strings. Basic strings stand between double quotes and know escapes; literal
strings stand between single quotes and hold what is written. Each kind also has a form between
three quotes, which may hold line breaks; a line break right behind the opening quotes does not
count. A backslash at the end of a line of a basic string skips all blanks and line breaks up to the
next character. Up to two quotes may stand directly before the closing ones.

The readers take the characters behind the opening quotes and give back those behind the closing
ones.
-/

namespace LintRepair.Toml

/-- A blank within a line. -/
def isBlank (c : Char) : Bool :=
  c == ' ' || c == '\t'

/-- Whether a character may stand in a comment or a string: no control character but the tab. -/
def isPlain (c : Char) : Bool :=
  c == '\t' || (' ' ≤ c && c != '\x7f')

/-- The characters behind a line break at the front. -/
def afterBreak? : List Char → Option (List Char)
  | '\n' :: rest => some rest
  | '\r' :: '\n' :: rest => some rest
  | _ => none

/-- The character that an escape of one letter stands for. -/
def letterEscape? : Char → Option Char
  | '"' => some '"'
  | '\\' => some '\\'
  | 'b' => some '\x08'
  | 't' => some '\t'
  | 'n' => some '\n'
  | 'f' => some '\x0c'
  | 'r' => some '\r'
  | _ => none

/-- The character with a number written by exactly so many hexadecimal digits. -/
def numberedChar? (count : Nat) (chars : List Char) : Option Char := do
  let digits := chars.take count
  if digits.length < count then none
  else
    let n ← Text.hexNumber? digits
    if n.isValidChar then some (Char.ofNat n) else none

/-- The character of an escape behind its backslash, and how many characters the escape takes. -/
def escape? : List Char → Option (Char × Nat)
  | [] => none
  | 'u' :: rest => (numberedChar? 4 rest).map (·, 5)
  | 'U' :: rest => (numberedChar? 8 rest).map (·, 9)
  | c :: _ => (letterEscape? c).map (·, 1)

/-- Reads a basic string within a line. `acc` holds its characters so far, the last one first. -/
def readBasic (acc chars : List Char) : Option (String × List Char) :=
  match chars with
  | [] => none
  | '"' :: rest => some (String.ofList acc.reverse, rest)
  | '\\' :: rest =>
      match escape? rest with
      | some (c, count) => readBasic (c :: acc) (rest.drop count)
      | none => none
  | c :: rest => if isPlain c then readBasic (c :: acc) rest else none
termination_by chars.length
decreasing_by all_goals simp only [List.length_cons, List.length_drop]; omega

/-- Reads a literal string within a line. -/
def readLiteral (acc : List Char) : List Char → Option (String × List Char)
  | [] => none
  | '\'' :: rest => some (String.ofList acc.reverse, rest)
  | c :: rest => if isPlain c then readLiteral (c :: acc) rest else none

/-- The characters behind three closing quotes, and how many of up to two further quotes belong to
the string. -/
def closing? (quote : Char) (chars : List Char) : Option (Nat × List Char) :=
  let quotes := min 5 (chars.takeWhile (· = quote)).length
  if 3 ≤ quotes then some (quotes - 3, chars.drop quotes) else none

/-- Puts quotes at the end of the characters of a string. -/
def closed (quote : Char) (acc : List Char) (count : Nat) : String :=
  String.ofList ((List.replicate count quote ++ acc).reverse)

/-- Passes over blanks and line breaks. -/
def skipBreaks : List Char → List Char
  | '\r' :: '\n' :: rest => skipBreaks rest
  | c :: rest => if isBlank c || c == '\n' then skipBreaks rest else c :: rest
  | [] => []

theorem length_skipBreaks_le (chars : List Char) :
    (skipBreaks chars).length ≤ chars.length := by
  fun_induction skipBreaks chars with
  | case1 rest ih => simp only [List.length_cons]; omega
  | case2 c rest _ _ ih => simp only [List.length_cons]; omega
  | case3 => exact Nat.le_refl _
  | case4 => exact Nat.le_refl _

/-- Whether only blanks stand before the next line break. -/
def endsLine (chars : List Char) : Bool :=
  (afterBreak? (chars.dropWhile isBlank)).isSome

/-- Reads a basic string that may hold line breaks. -/
def readBasicLines (acc chars : List Char) : Option (String × List Char) :=
  match closing? '"' chars with
  | some (count, rest) => some (closed '"' acc count, rest)
  | none =>
      match chars with
      | [] => none
      | '\\' :: rest =>
          if endsLine rest then readBasicLines acc (skipBreaks rest)
          else
            match escape? rest with
            | some (c, count) => readBasicLines (c :: acc) (rest.drop count)
            | none => none
      | '\r' :: '\n' :: rest => readBasicLines ('\n' :: '\r' :: acc) rest
      | c :: rest => if isPlain c || c == '\n' then readBasicLines (c :: acc) rest else none
termination_by chars.length
decreasing_by
  · have := length_skipBreaks_le rest
    simp only [List.length_cons]
    omega
  all_goals simp only [List.length_cons, List.length_drop]; omega

/-- Reads a literal string that may hold line breaks. -/
def readLiteralLines (acc chars : List Char) : Option (String × List Char) :=
  match closing? '\'' chars with
  | some (count, rest) => some (closed '\'' acc count, rest)
  | none =>
      match chars with
      | [] => none
      | '\r' :: '\n' :: rest => readLiteralLines ('\n' :: '\r' :: acc) rest
      | c :: rest => if isPlain c || c == '\n' then readLiteralLines (c :: acc) rest else none

/-- The characters of a string that may hold line breaks, without a line break at the front. -/
def withoutBreak (chars : List Char) : List Char :=
  (afterBreak? chars).getD chars

/-- Reads a string of any kind, from its opening quotes on. -/
def readString : List Char → Option (String × List Char)
  | '"' :: '"' :: '"' :: rest => readBasicLines [] (withoutBreak rest)
  | '\'' :: '\'' :: '\'' :: rest => readLiteralLines [] (withoutBreak rest)
  | '"' :: rest => readBasic [] rest
  | '\'' :: rest => readLiteral [] rest
  | _ => none

end LintRepair.Toml
