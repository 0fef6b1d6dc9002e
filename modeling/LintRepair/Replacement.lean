import LintRepair.Text.Bytes

/-!
# Replacements

A replacement is the smallest edit: the bytes from `start` on, `length` of them, give way to `text`.
Offsets always refer to the text that the edit was suggested for, never to a text that other edits
have already changed. They are 64-bit words, as the tools that suggest edits count them, so a span
can reach past every text, and its end can even leave the range of words; `stop` then stays at the
largest word and `validate` reports the overflow.
-/

namespace LintRepair

/-- The largest byte offset that can be written down, `2 ^ 64 - 1`. -/
def maxOffset : Nat := 0xFFFFFFFFFFFFFFFF

/-- The bytes from `start` up to, and without, `stop`. -/
structure Span where
  start : Nat
  stop : Nat
deriving DecidableEq, Repr

/-- A span in messages: a half-open interval. -/
def Span.render (span : Span) : String :=
  "[" ++ toString span.start ++ ", " ++ toString span.stop ++ ")"

/-- An edit of one span. Among insertions at one offset, texts of lower `priority` come first. -/
structure Replacement where
  start : UInt64
  length : UInt64
  text : String
  priority : Int32 := 0
deriving DecidableEq, Repr, Inhabited

/-- Why an edit does not fit a text, or is no edit at all. -/
inductive EditError where
  /-- The span reaches past the end of the text, which has `size` bytes. -/
  | outOfBounds (span : Span) (size : Nat)
  /-- The end of the span lies before its start. -/
  | inverted (span : Span)
  /-- The end of the span is no 64-bit word. -/
  | overflow (start length : Nat)
  /-- The span begins or ends inside a character. -/
  | insideCharacter (offset : Nat)
deriving DecidableEq, Repr

def EditError.message : EditError → String
  | .outOfBounds span size =>
      "Invalid byte range: " ++ span.render ++ " in buffer of length " ++ toString size
  | .inverted span =>
      "Inverted byte range: end " ++ toString span.stop ++ " is before start " ++
        toString span.start
  | .overflow start length =>
      "Byte range overflows: start " ++ toString start ++ " + length " ++ toString length
  | .insideCharacter offset =>
      "Byte offset " ++ toString offset ++ " is not on a UTF-8 character boundary"

namespace Replacement

/-- Puts `text` in at an offset and removes nothing. -/
def insertion (start : UInt64) (text : String) : Replacement :=
  { start, length := 0, text }

def deletion (start length : UInt64) : Replacement :=
  { start, length, text := "" }

def between (start stop : UInt64) (text : String) : Except EditError Replacement :=
  if stop < start then .error (.inverted ⟨start.toNat, stop.toNat⟩)
  else .ok { start, length := stop - start, text }

/-- The end of the span, at most the largest offset. -/
def stop (r : Replacement) : Nat :=
  min (r.start.toNat + r.length.toNat) maxOffset

/-- The bytes that `r` takes away. -/
def span (r : Replacement) : Span :=
  ⟨r.start.toNat, r.stop⟩

def isInsertion (r : Replacement) : Bool :=
  r.length == 0

/-- By how many bytes `r` makes a text longer, in 64-bit two's complement. -/
def delta (r : Replacement) : Int64 :=
  Int64.ofNat r.text.utf8ByteSize - r.length.toInt64

/-- Two half-open spans meet. Spans that only touch do not overlap, and an insertion overlaps a span
only when it lies strictly inside. -/
def Overlaps (a b : Replacement) : Prop :=
  b.start.toNat < a.stop ∧ a.start.toNat < b.stop

instance (a b : Replacement) : Decidable (a.Overlaps b) :=
  inferInstanceAs (Decidable (_ ∧ _))

theorem overlaps_comm {a b : Replacement} : a.Overlaps b ↔ b.Overlaps a :=
  And.comm

/-- Checks that `r` can be applied to `source`: its end is a word, lies within the text, and both
ends are character boundaries. The first of these that fails is reported. -/
def validate (r : Replacement) (source : String) : Except EditError Unit :=
  let start := r.start.toNat
  let stop := r.start.toNat + r.length.toNat
  if maxOffset < stop then .error (.overflow start r.length.toNat)
  else if source.utf8ByteSize < stop then .error (.outOfBounds ⟨start, stop⟩ source.utf8ByteSize)
  else if ¬ Text.IsBoundary source.toList start then .error (.insideCharacter start)
  else if ¬ Text.IsBoundary source.toList stop then .error (.insideCharacter stop)
  else .ok ()

/-- Carries `r` out on a text. A text whose boundaries the span misses is left alone; none of those
that have passed `validate` is. -/
def splice (r : Replacement) (chars : List Char) : List Char :=
  (Text.replaceSpan? chars r.start.toNat r.stop r.text.toList).getD chars

end Replacement

end LintRepair
