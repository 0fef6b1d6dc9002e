/-!
# Where to split a comparison

A shortest way from one list to another is a path through a grid: a step right deletes an item, a
step down inserts one, and a diagonal step keeps an item that both lists have. `split?` looks for a
point in the middle of a shortest path. It follows, for growing numbers of steps, the furthest
points on each diagonal, from the beginning of the lists and from their end at the same time, and
stops where a path from the one side meets one from the other.

Both searches are the same: the one from the end runs over the reversed lists.
-/

namespace LintRepair.Diff

variable {α : Type}

/-- The furthest points so far, by diagonal, as numbers of items of the old list. -/
structure Frontier where
  reach : Nat
  cells : Array Nat

namespace Frontier

/-- A frontier for diagonals up to `reach` on either side, with all points at the start. -/
def start (reach : Nat) : Frontier :=
  ⟨reach, Array.replicate (2 * reach + 1) 0⟩

def point (frontier : Frontier) (diagonal : Int) : Nat :=
  frontier.cells.getD (diagonal + frontier.reach).toNat 0

def move (frontier : Frontier) (diagonal : Int) (point : Nat) : Frontier :=
  { frontier with cells := frontier.cells.setIfInBounds (diagonal + frontier.reach).toNat point }

end Frontier

/-- How many items agree from position `i` of `old` and position `j` of `new` on. -/
def agreeing [DecidableEq α] (old new : Array α) (i j : Nat) : Nat :=
  if h : i < old.size ∧ j < new.size then
    if old[i] = new[j] then agreeing old new (i + 1) (j + 1) + 1 else 0
  else 0
termination_by old.size - i

/-- The diagonals that can be reached with exactly so many steps, from above. -/
def diagonals (steps : Nat) : List Int :=
  (List.range (steps + 1)).map fun i : Nat => (steps : Int) - 2 * (i : Int)

/-- The next run on a diagonal, from where it is entered to where it ends. It is entered from the
neighbour that is further on; of two that are equally far, from the one below. -/
def nextRun [DecidableEq α] (old new : Array α) (steps : Nat) (frontier : Frontier)
    (diagonal : Int) : Nat × Nat :=
  let above := frontier.point (diagonal + 1)
  let below := frontier.point (diagonal - 1)
  let fromAbove := diagonal = -(steps : Int) ∨ (diagonal ≠ steps ∧ below < above)
  let entry := if fromAbove then above else below + 1
  (entry, entry + agreeing old new entry (entry - diagonal).toNat)

/-- The search ends with a point, or goes on. -/
abbrev Search := Except (Int × Int)

/-- One more step from the beginning. The two searches can meet here when the lengths of the lists
differ by an odd number. -/
def stepForward [DecidableEq α] (old new : Array α) (steps : Nat) (backward : Frontier)
    (forward : Frontier) (diagonal : Int) : Search Frontier :=
  let shift : Int := (old.size : Int) - new.size
  let (entry, stop) := nextRun old new steps forward diagonal
  if shift % 2 = 1 ∧ (diagonal - shift).natAbs < steps ∧
      old.size ≤ stop + backward.point (shift - diagonal) then
    .error (entry, entry - diagonal)
  else .ok (forward.move diagonal stop)

/-- One more step from the end. The two searches can meet here when the lengths of the lists differ
by an even number. -/
def stepBackward [DecidableEq α] (old new : Array α) (steps : Nat) (forward : Frontier)
    (backward : Frontier) (diagonal : Int) : Search Frontier :=
  let shift : Int := (old.size : Int) - new.size
  let (_, stop) := nextRun old.reverse new.reverse steps backward diagonal
  if shift % 2 = 0 ∧ (diagonal - shift).natAbs ≤ steps ∧
      old.size ≤ stop + forward.point (shift - diagonal) then
    .error ((old.size : Int) - stop, (new.size : Int) - (stop - diagonal))
  else .ok (backward.move diagonal stop)

/-- A round of the search: all runs of so many steps from the beginning, then those from the end. -/
def searchRound [DecidableEq α] (old new : Array α) (frontiers : Frontier × Frontier)
    (steps : Nat) : Search (Frontier × Frontier) := do
  let (forward, backward) := frontiers
  let forward ← (diagonals steps).foldlM (stepForward old new steps backward) forward
  let backward ← (diagonals steps).foldlM (stepBackward old new steps forward) backward
  return (forward, backward)

/-- A point in the middle of a shortest path: so many items of `old` and of `new` lie before it. -/
def split? [DecidableEq α] (old new : List α) : Option (Int × Int) :=
  let most := (old.length + new.length + 1) / 2
  let frontier := Frontier.start (most + 1)
  let search := (List.range (most + 1)).foldlM (searchRound old.toArray new.toArray)
    (frontier, frontier)
  match search with
  | .error point => some point
  | .ok _ => none

end LintRepair.Diff
