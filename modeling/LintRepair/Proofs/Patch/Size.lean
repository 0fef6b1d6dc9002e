import Mathlib.Algebra.Order.BigOperators.Group.List
import Mathlib.Algebra.Order.Ring.Int
import Mathlib.Algebra.Order.Ring.Nat
import LintRepair.Proofs.Patch.ReadingOrder

/-!
# The size of a patched text

Before a patch builds its text it computes how long that text will be, in signed 64-bit words: a
difference for each replacement, their sum in the order of the list, and the size of the source on
top.  `sizesFit` says that no step of this leaves the range of words, provided that the source and
all the texts fit into memory together.

The sums can only be too small when too much is removed.  Disjoint replacements remove no byte
twice, which is an induction along the reading order (`add_removed_le`), and the part of a list that
has been summed up removes no more than the whole list (`sum_map_take_le`).
-/

namespace LintRepair

/-- By how many bytes `r` makes a text longer. -/
def Replacement.exactDelta (r : Replacement) : Int :=
  r.text.utf8ByteSize - r.length.toNat

namespace Patch

variable {source : String} {replacements : List Replacement}

/-- How many bytes replacements take out of a text. -/
def removed (replacements : List Replacement) : Nat :=
  (replacements.map fun r => r.length.toNat).sum

/-- How many bytes replacements put into a text. -/
def inserted (replacements : List Replacement) : Nat :=
  (replacements.map fun r => r.text.utf8ByteSize).sum

/-- A number in the range of signed 64-bit words. -/
def IsWord (n : Int) : Prop :=
  -2 ^ 63 ≤ n ∧ n < 2 ^ 63

/-- All numbers on the way to the size of the patched text are words. -/
structure SizesFit (source : String) (replacements : List Replacement) : Prop where
  texts : ∀ r ∈ replacements, IsWord r.text.utf8ByteSize
  lengths : ∀ r ∈ replacements, IsWord r.length.toNat
  deltas : ∀ r ∈ replacements, IsWord r.exactDelta
  /-- The sums of the first differences, in the order of the list. -/
  sums : ∀ count, IsWord ((replacements.take count).map Replacement.exactDelta).sum
  before : IsWord source.utf8ByteSize
  after : IsWord (source.utf8ByteSize + (replacements.map Replacement.exactDelta).sum)

/-! ## What is removed -/

/-- Replacements in order behind an offset remove no more than what lies behind it. -/
theorem add_removed_le {order : List Replacement} {start : Nat}
    (horder : InOrder source start order) :
    start + removed order ≤ source.utf8ByteSize := by
  induction horder with
  | nil hsize => exact hsize
  | @cons start r rest hstart hvalid _ ih =>
      -- The rest lies behind `r`, so what it removes is counted from the end of `r` on.
      have hstop := Replacement.stop_eq_of_validate hvalid
      have hcons : removed (r :: rest) = r.length.toNat + removed rest := rfl
      omega

theorem removed_readingOrder (replacements : List Replacement) :
    removed (readingOrder replacements) = removed replacements :=
  ((readingOrder_perm replacements).map _).sum_nat

theorem removed_le (hvalid : ∀ r ∈ replacements, r.validate source = .ok ())
    (hdisjoint : replacements.Pairwise fun a b => ¬ a.Overlaps b) :
    removed replacements ≤ source.utf8ByteSize := by
  have hle := add_removed_le (inOrder_readingOrder hvalid hdisjoint)
  rw [removed_readingOrder] at hle
  omega

/-! ## Sums -/

theorem sum_map_take_le (f : Replacement → Nat) (replacements : List Replacement) (count : Nat) :
    ((replacements.take count).map f).sum ≤ (replacements.map f).sum := by
  have hsplit : (replacements.map f).sum =
      ((replacements.take count).map f).sum + ((replacements.drop count).map f).sum := by
    rw [← List.sum_append_nat, ← List.map_append, List.take_append_drop]
  omega

theorem map_le_sum (f : Replacement → Nat) {r : Replacement} (hr : r ∈ replacements) :
    f r ≤ (replacements.map f).sum :=
  List.single_le_sum (fun _ _ => Nat.zero_le _) _ (List.mem_map_of_mem hr)

theorem sum_exactDelta (replacements : List Replacement) :
    (replacements.map Replacement.exactDelta).sum =
      (inserted replacements : Int) - removed replacements := by
  induction replacements with
  | nil => rfl
  | cons r rest ih =>
      have hinserted : inserted (r :: rest) = r.text.utf8ByteSize + inserted rest := rfl
      have hremoved : removed (r :: rest) = r.length.toNat + removed rest := rfl
      rw [List.map_cons, List.sum_cons, ih, hinserted, hremoved]
      unfold Replacement.exactDelta
      omega

/-- When the source and all texts fit into memory together, no number on the way to the size of the
patched text leaves the range of words. -/
theorem sizesFit (hvalid : ∀ r ∈ replacements, r.validate source = .ok ())
    (hdisjoint : replacements.Pairwise fun a b => ¬ a.Overlaps b)
    (hmemory : source.utf8ByteSize + inserted replacements < 2 ^ 63) :
    SizesFit source replacements := by
  -- Every number on the way is between the negative of what is removed and the source with what is
  -- inserted, and spans that do not overlap remove no more than the source has.
  have hremoved := removed_le hvalid hdisjoint
  have htext : ∀ r ∈ replacements, r.text.utf8ByteSize ≤ inserted replacements :=
    fun r hr => map_le_sum (fun s => s.text.utf8ByteSize) hr
  have hlength : ∀ r ∈ replacements, r.length.toNat ≤ removed replacements :=
    fun r hr => map_le_sum (fun s => s.length.toNat) hr
  constructor
  · intro r hr
    have := htext r hr
    unfold IsWord
    omega
  · intro r hr
    have := hlength r hr
    unfold IsWord
    omega
  · intro r hr
    have := htext r hr
    have := hlength r hr
    unfold IsWord Replacement.exactDelta
    omega
  · intro count
    have hputIn : inserted (replacements.take count) ≤ inserted replacements :=
      sum_map_take_le _ replacements count
    have htakenOut : removed (replacements.take count) ≤ removed replacements :=
      sum_map_take_le _ replacements count
    rw [sum_exactDelta]
    unfold IsWord
    omega
  · unfold IsWord
    omega
  · rw [sum_exactDelta]
    unfold IsWord
    omega

end Patch

end LintRepair
