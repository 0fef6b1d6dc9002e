/-!
# Styles on a terminal

A terminal shows text in another style between two control sequences, of which the second resets all
styles. Where the text itself holds a reset, the style is set again behind it.
-/

namespace LintRepair.Command

/-- How a text is shown. -/
inductive Style where
  | red | green | yellow | bold
deriving DecidableEq, Repr

def controlSequence (number : Nat) : List Char :=
  '\x1b' :: '[' :: (Nat.toDigits 10 number ++ ['m'])

def Style.sequence : Style → List Char
  | .red => controlSequence 31
  | .green => controlSequence 32
  | .yellow => controlSequence 33
  | .bold => controlSequence 1

/-- The control sequence that resets all styles. -/
def reset : List Char := controlSequence 0

/-- Characters with more characters put in behind every reset. -/
def afterResets (added : List Char) : List Char → List Char
  | '\x1b' :: '[' :: '0' :: 'm' :: rest => reset ++ added ++ afterResets added rest
  | c :: rest => c :: afterResets added rest
  | [] => []

def Style.paint (style : Style) (colored : Bool) (text : String) : String :=
  if colored then
    String.ofList (style.sequence ++ afterResets style.sequence text.toList ++ reset)
  else text

end LintRepair.Command
