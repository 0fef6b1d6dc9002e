import LintRepair.Fix
import LintRepair.Log

/-!
# Patching a text

All replacements of a patch are given against the same text. They are carried out back to front, so
that whatever has been changed lies at or after the end of the span whose turn it is, and its
offsets still mean what they meant in the beginning. Before anything is changed, each replacement is
checked against the text, and neighbours in the order of application are checked for overlap.

The order puts later ends first. Two spans that share an end and do not overlap are a span and an
insertion behind it, or insertions at one offset: among equal ends the later start goes first, and
of insertions at one offset those of higher priority, then those later in the list, go first and so
end up further right.
-/

namespace LintRepair

inductive PatchError where
  | edit (error : EditError)
  /-- Two replacements overlap, the `first` of which would have been carried out later. -/
  | overlap (first second : Span)
deriving DecidableEq, Repr

def PatchError.message : PatchError → String
  | .edit error => error.message
  | .overlap first second =>
      "Overlapping replacements reached the patcher: " ++ first.render ++ " and " ++ second.render

namespace Patch

/-- A replacement and its position in the list that it came from. -/
abbrev Entry := Replacement × Nat

/-- Whether `a` is carried out before `b`, or both are the same entry: by end, start, priority and
position, each descending. -/
def Precedes (a b : Entry) : Prop :=
  b.1.stop < a.1.stop ∨
    b.1.stop = a.1.stop ∧ (b.1.start.toNat < a.1.start.toNat ∨
      b.1.start.toNat = a.1.start.toNat ∧ (b.1.priority.toInt < a.1.priority.toInt ∨
        b.1.priority.toInt = a.1.priority.toInt ∧ b.2 ≤ a.2))

instance (a b : Entry) : Decidable (Precedes a b) := by
  unfold Precedes
  infer_instance

/-- The replacements in the order in which they are carried out. -/
def applicationOrder (replacements : List Replacement) : List Replacement :=
  (replacements.zipIdx.mergeSort fun a b => decide (Precedes a b)).map Prod.fst

/-- The first neighbours of which the one that is carried out later reaches past the start of the
other; the later one comes first in the answer. -/
def firstCrossing : List Replacement → Option (Replacement × Replacement)
  | earlier :: later :: rest =>
      if earlier.start.toNat < later.stop then some (later, earlier)
      else firstCrossing (later :: rest)
  | _ => none

/-- Checks each replacement against the text, and neighbours against each other. -/
def check (source : String) (replacements : List Replacement) : Except PatchError Unit := do
  replacements.forM fun replacement => (replacement.validate source).mapError .edit
  match firstCrossing (applicationOrder replacements) with
  | some (first, second) => throw (.overlap first.span second.span)
  | none => return ()

def spliceAll (order : List Replacement) (chars : List Char) : List Char :=
  order.foldl (fun content replacement => replacement.splice content) chars

/-- The text after all replacements, none of which may overlap another. -/
def apply (source : String) (replacements : List Replacement) : Except PatchError String := do
  check source replacements
  return String.ofList (spliceAll (applicationOrder replacements) source.toList)

/-- By how many bytes the replacements make a text longer, summed up in 64-bit two's complement from
the front of the list. -/
def growth (replacements : List Replacement) : Int64 :=
  replacements.foldl (fun total replacement => total + replacement.delta) 0

/-- The size in bytes that the patched text will have; never less than nothing. -/
def expectedSize (source : String) (replacements : List Replacement) : UInt64 :=
  (max (Int64.ofNat source.utf8ByteSize + growth replacements) 0).toUInt64

/-- The log of a patch: its steps, if it is carried out at all. -/
def events (source : String) (replacements : List Replacement) : List Log.Event :=
  match check source replacements with
  | .ok () => (applicationOrder replacements).map fun replacement =>
      .replacementApplied replacement.start.toNat replacement.stop
  | .error _ => []

end Patch

/-- The text after this fix alone. -/
def Fix.apply (fix : Fix) (source : String) : Except PatchError String :=
  Patch.apply source fix.replacements

end LintRepair
