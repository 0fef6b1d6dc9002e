import LintRepair.Text.Bytes

/-!
# Lines and characters

Messages for people name a place by line and character instead of by byte.  Both count from zero
here, and a line ends with a line feed.  Offsets past the end of a text mean its end, and an offset
inside a character counts the character as passed.

A `LineTable` holds the offsets at which the lines of a text begin.  The line of an offset is looked
up in it by halving, and the characters on the line are counted by their first bytes.
-/

namespace LintRepair.Text

/-- A place in a text: lines before it, and characters before it on its own line. -/
structure Position where
  line : Nat
  character : Nat
deriving DecidableEq, Repr

/-- Whether a byte of a text is the first one of a character.  The other ones begin with the bits
`10`. -/
def beginsCharacter (byte : UInt8) : Bool :=
  byte &&& 0xC0 != 0x80

/-- The offsets of the line feeds, for characters that stand at `offset`. -/
def lineFeeds : Nat → List Char → List Nat
  | _, [] => []
  | offset, c :: chars =>
      if c = '\n' then offset :: lineFeeds (offset + c.utf8Size) chars
      else lineFeeds (offset + c.utf8Size) chars

/-- A text and the offsets at which its lines begin. -/
structure LineTable where
  source : String
  starts : Array Nat

/-- The first line begins with the text, and every line feed is followed by one more line. -/
def LineTable.ofText (source : String) : LineTable :=
  ⟨source, (0 :: (lineFeeds 0 source.toList).map (· + 1)).toArray⟩

/-- Halves a stretch of `size` places from `base` on until one place is left, towards the last
place that holds. -/
def lastHolding (holds : Nat → Bool) (base size : Nat) : Nat :=
  if size ≤ 1 then base
  else
    let middle := base + size / 2
    lastHolding holds (if holds middle then middle else base) (size - size / 2)
termination_by size
decreasing_by omega

/-- The number of items in front that hold, if none holds behind one that does not. -/
def partitionPoint {α : Type} (items : Array α) (holds : α → Bool) : Nat :=
  if items.size = 0 then 0
  else
    let holdsAt := fun place => items[place]?.any holds
    let last := lastHolding holdsAt 0 items.size
    if holdsAt last then last + 1 else last

/-- The bytes from `start` up to `stop`, if these are in order and inside. -/
def slice? (bytes : List UInt8) (start stop : Nat) : Option (List UInt8) :=
  if start ≤ stop ∧ stop ≤ bytes.length then some (bytes.extract start stop) else none

namespace LineTable

/-- The position of the byte at `offset`, or of the end.  There would be no answer if a line had a
number below zero, had no start or started behind the byte. -/
def position? (table : LineTable) (offset : Nat) : Option Position := do
  let stop := min offset table.source.utf8ByteSize
  let line ←
    match partitionPoint table.starts fun start => start ≤ stop with
    | 0 => none
    | point + 1 => some point
  let start ← table.starts[line]?
  let before ← slice? (bytes table.source) start stop
  return ⟨line, before.countP beginsCharacter⟩

/-- The number of lines; a line feed at the end is followed by one more, empty line. -/
def lineCount (table : LineTable) : Nat :=
  table.starts.size

end LineTable

/-- The position of the byte at `offset`.  The lookup always has an answer. -/
def position (source : String) (offset : Nat) : Position :=
  ((LineTable.ofText source).position? offset).getD ⟨0, 0⟩

def lineCount (source : String) : Nat :=
  (LineTable.ofText source).lineCount

end LintRepair.Text
