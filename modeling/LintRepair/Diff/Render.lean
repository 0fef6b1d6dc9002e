import LintRepair.Diff.Compaction
import LintRepair.Text.Lines

/-!
# Line diffs

A line diff shows the lines that only the old text has after a minus, and those that only the new
text has after a plus; within one change the former come first. Lines that both texts have are not
shown. A line that does not end with a line feed gets one.
-/

namespace LintRepair.Diff

open Text (Line)

def signed (sign : Char) (line : Line) : List Char :=
  sign :: Text.withLineFeed line

def Script.Change.render (change : Script.Change Line) : List Char :=
  change.deleted.flatMap (signed '-') ++ change.inserted.flatMap (signed '+')

/-- The line diff of two texts. -/
def render (old new : String) : String :=
  String.ofList
    ((script (Text.lines old.toList) (Text.lines new.toList)).changes.flatMap
      Script.Change.render)

end LintRepair.Diff
