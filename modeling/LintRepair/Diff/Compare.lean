import LintRepair.Diff.Script
import LintRepair.Diff.Split

/-!
# Comparing two lists

`compare` builds an edit script from an old list to a new one. Items that agree at both ends are
kept; what is left between is split at a point in the middle of a shortest path, and the two halves
are compared in the same way. Without such a point everything is deleted and inserted anew.
-/

namespace LintRepair.Diff

variable {α : Type}

/-- A point that leaves each half of the comparison smaller than the whole. -/
structure ProperSplit (old new : List α) where
  oldBefore : Nat
  newBefore : Nat
  oldBefore_le : oldBefore ≤ old.length
  newBefore_le : newBefore ≤ new.length
  nonempty : 0 < oldBefore + newBefore
  proper : oldBefore + newBefore < old.length + new.length

namespace ProperSplit

variable {old new : List α}

theorem length_before_lt (split : ProperSplit old new) :
    (old.take split.oldBefore).length + (new.take split.newBefore).length <
      old.length + new.length := by
  rw [List.length_take_of_le split.oldBefore_le, List.length_take_of_le split.newBefore_le]
  exact split.proper

theorem length_after_lt (split : ProperSplit old new) :
    (old.drop split.oldBefore).length + (new.drop split.newBefore).length <
      old.length + new.length := by
  have hold := split.oldBefore_le
  have hnew := split.newBefore_le
  have hnonempty := split.nonempty
  rw [List.length_drop, List.length_drop]
  omega

end ProperSplit

/-- Items between two ends are no more than there are. -/
theorem length_middle_le (items : List α) (front count : Nat) :
    ((items.drop front).take count).length ≤ items.length := by
  rw [List.length_take, List.length_drop]
  omega

variable [DecidableEq α]

/-- How many items agree at the front of two lists. -/
def commonFront : List α → List α → Nat
  | a :: as, b :: bs => if a = b then commonFront as bs + 1 else 0
  | _, _ => 0

/-- How many items agree at the end of two lists. -/
def commonBack (as bs : List α) : Nat :=
  commonFront as.reverse bs.reverse

/-- The point where the comparison is split, if there is a proper one. -/
def properSplit? (old new : List α) : Option (ProperSplit old new) := do
  let (i, j) ← split? old new
  if h : 0 ≤ i ∧ 0 ≤ j ∧ i.toNat ≤ old.length ∧ j.toNat ≤ new.length ∧ 0 < i.toNat + j.toNat ∧
      i.toNat + j.toNat < old.length + new.length then
    some ⟨i.toNat, j.toNat, h.2.2.1, h.2.2.2.1, h.2.2.2.2.1, h.2.2.2.2.2⟩
  else none

def compare (old new : List α) : Script α :=
  let front := commonFront old new
  let back := commonBack (old.drop front) (new.drop front)
  let oldMiddle := (old.drop front).take (old.length - front - back)
  let newMiddle := (new.drop front).take (new.length - front - back)
  let middle : Script α :=
    if oldMiddle.isEmpty && newMiddle.isEmpty then []
    else if newMiddle.isEmpty then [.delete oldMiddle]
    else if oldMiddle.isEmpty then [.insert newMiddle]
    else
      match properSplit? oldMiddle newMiddle with
      | some split =>
          compare (oldMiddle.take split.oldBefore) (newMiddle.take split.newBefore) ++
            compare (oldMiddle.drop split.oldBefore) (newMiddle.drop split.newBefore)
      | none => [.delete oldMiddle, .insert newMiddle]
  Script.keeping (old.take front) ++ middle ++
    Script.keeping ((old.drop front).drop (old.length - front - back))
termination_by old.length + new.length
decreasing_by
  · exact Nat.lt_of_lt_of_le split.length_before_lt
      (Nat.add_le_add (length_middle_le ..) (length_middle_le ..))
  · exact Nat.lt_of_lt_of_le split.length_after_lt
      (Nat.add_le_add (length_middle_le ..) (length_middle_le ..))

end LintRepair.Diff
