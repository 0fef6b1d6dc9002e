/-!
# Lines with their ends

A line ends with a line feed, a carriage return, or both in the order CR LF, and keeps its end. Only
the last line of a text may lack one. So the lines of a text, one after the other, are the text.
-/

namespace LintRepair.Text

/-- A line with its end. -/
abbrev Line := List Char

/-- Puts a character at the front of the first line. -/
def glue (c : Char) : List Line → List Line
  | [] => [[c]]
  | line :: lines => (c :: line) :: lines

/-- The lines of a text. -/
def lines : List Char → List Line
  | [] => []
  | '\r' :: '\n' :: rest => ['\r', '\n'] :: lines rest
  | c :: rest => if c = '\n' ∨ c = '\r' then [c] :: lines rest else glue c (lines rest)

@[simp] theorem flatten_glue (c : Char) (lines : List Line) :
    (glue c lines).flatten = c :: lines.flatten := by
  cases lines <;> simp [glue]

/-- The lines of a text make up the text. -/
theorem flatten_lines (chars : List Char) : (lines chars).flatten = chars := by
  fun_induction lines chars with
  | case1 => rfl
  | case2 rest ih => simp [ih]
  | case3 c rest _ _ ih => simp [ih]
  | case4 c rest _ _ ih => simp [ih]

/-- The line with a line feed at its end, whatever other end it has or lacks. -/
def withLineFeed (line : Line) : List Char :=
  if line.getLast? = some '\n' then line else line ++ ['\n']

end LintRepair.Text
