/-!
# Blank characters and letter case

Names that people write in settings and on the command line may stand between blanks and in any
letter case. Blank are the white space characters of Unicode; letter case is that of ASCII only, so
that no other letter is ever taken for one of a name.
-/

namespace LintRepair.Text

/-- The code points of the Unicode property `White_Space`, as closed ranges. -/
def blankRanges : List (Nat × Nat) :=
  [(0x09, 0x0d), (0x20, 0x20), (0x85, 0x85), (0xa0, 0xa0), (0x1680, 0x1680), (0x2000, 0x200a),
   (0x2028, 0x2029), (0x202f, 0x202f), (0x205f, 0x205f), (0x3000, 0x3000)]

def isBlank (c : Char) : Bool :=
  blankRanges.any fun (first, last) => first ≤ c.toNat && c.toNat ≤ last

/-- The text without blanks at either end. -/
def trim (text : String) : String :=
  String.ofList (((text.toList.dropWhile isBlank).reverse.dropWhile isBlank).reverse)

/-- The text with the capital letters of ASCII made small. -/
def lower (text : String) : String :=
  text.map Char.toLower

end LintRepair.Text
