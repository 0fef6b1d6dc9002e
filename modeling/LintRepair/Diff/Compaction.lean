import LintRepair.Diff.Compare

/-!
# Compacting edit scripts

Deletions and insertions can often be moved without changing what a script does: past a change of
the other kind, and, for an insertion, past kept items that equal its own last or first ones. Every
deletion and then every insertion is moved up as far as it goes, joining those of its kind on the
way, and then down as far as it goes. So neighbouring changes grow together, and a change that could
stand in several places stands in the last one.

None of these moves changes the two lists of the script.
-/

namespace LintRepair.Diff

variable {α : Type}

/-- A script with a mark on one of its steps. The steps before it come nearest first. -/
structure Cursor (α : Type) where
  before : List (Step α)
  current : Step α
  after : List (Step α)

namespace Cursor

def script (cursor : Cursor α) : Script α :=
  cursor.before.reverse ++ cursor.current :: cursor.after

/-- The size of the steps that an up or a down move has ahead of it. -/
def room : List (Step α) → Nat
  | [] => 0
  | step :: steps => step.items.length + 1 + room steps

@[simp] theorem room_cons (step : Step α) (steps : List (Step α)) :
    room (step :: steps) = step.items.length + 1 + room steps := rfl

/-- Puts kept items in front of steps, joining a run that is there. -/
def keepBefore (items : List α) : List (Step α) → List (Step α)
  | .keep next :: rest => .keep (items ++ next) :: rest
  | steps => .keep items :: steps

/-- Puts kept items behind steps that come nearest first, joining a run that is there. -/
def keepAfter (items : List α) : List (Step α) → List (Step α)
  | .keep next :: rest => .keep (next ++ items) :: rest
  | steps => .keep items :: steps

/-- The steps after a run of which `items` are left. -/
def leaving (items : List α) (steps : List (Step α)) : List (Step α) :=
  if items.isEmpty then steps else .keep items :: steps

theorem room_leaving_lt {items : List α} {steps : List (Step α)} {n : Nat}
    (hless : items.length < n) : room (leaving items steps) < n + 1 + room steps := by
  unfold leaving
  split
  · omega
  · simp only [room_cons, Step.items]
    omega

variable [DecidableEq α]

/-- How far an insertion can move up into a kept run. -/
def slackAbove (kept : List α) : Step α → Nat
  | .insert items => commonBack kept items
  | _ => 0

/-- How far an insertion can move down into a kept run. -/
def slackBelow (kept : List α) : Step α → Nat
  | .insert items => commonFront kept items
  | _ => 0

/-- Moves a step up as far as it goes; the steps before it come nearest first. -/
def up : List (Step α) → Step α → List (Step α) → Cursor α
  | [], current, after => ⟨[], current, after⟩
  | .keep kept :: rest, current, after =>
      let slack := slackAbove kept current
      if 0 < slack ∧ 0 < kept.length then
        let moved := kept.drop (kept.length - slack)
        up (leaving (kept.take (kept.length - slack)) rest)
          (.insert (moved ++ current.items.take (current.items.length - slack)))
          (keepBefore moved after)
      else if kept.isEmpty then up rest current after
      else ⟨.keep kept :: rest, current, after⟩
  | .delete items :: rest, .delete own, after => up rest (.delete (items ++ own)) after
  | .insert items :: rest, .insert own, after => up rest (.insert (items ++ own)) after
  | step :: rest, current, after => up rest current (step :: after)
termination_by before => room before
decreasing_by
  all_goals simp only [room_cons, Step.items]
  · refine room_leaving_lt ?_
    rw [List.length_take]
    omega
  all_goals omega

def down : List (Step α) → Step α → List (Step α) → Cursor α
  | before, current, [] => ⟨before, current, []⟩
  | before, current, .keep kept :: rest =>
      let slack := slackBelow kept current
      if 0 < slack ∧ 0 < kept.length then
        let moved := kept.take slack
        down (keepAfter moved before) (.insert (current.items.drop slack ++ moved))
          (leaving (kept.drop slack) rest)
      else if kept.isEmpty then down before current rest
      else ⟨before, current, .keep kept :: rest⟩
  | before, .delete own, .delete items :: rest => down before (.delete (own ++ items)) rest
  | before, .insert own, .insert items :: rest => down before (.insert (own ++ items)) rest
  | before, current, step :: rest => down (step :: before) current rest
termination_by _ _ after => room after
decreasing_by
  all_goals simp only [room_cons, Step.items]
  · refine room_leaving_lt ?_
    rw [List.length_drop]
    omega
  all_goals omega

/-- Moves a step to the place where it belongs. -/
def settle (cursor : Cursor α) : Cursor α :=
  let raised := up cursor.before cursor.current cursor.after
  down raised.before raised.current raised.after

/-- Goes through the steps from a place on, and moves those that `moves` names. The allowance bounds
the number of steps that are visited. -/
def sweep (moves : Step α → Bool) : Nat → List (Step α) → List (Step α) → Script α
  | 0, before, after => before.reverse ++ after
  | _ + 1, before, [] => before.reverse
  | allowance + 1, before, step :: after =>
      let cursor : Cursor α :=
        if moves step then settle ⟨before, step, after⟩ else ⟨before, step, after⟩
      sweep moves allowance (cursor.current :: cursor.before) cursor.after

end Cursor

def Step.isDelete : Step α → Bool
  | .delete _ => true
  | _ => false

def Step.isInsert : Step α → Bool
  | .insert _ => true
  | _ => false

/-- Moves all deletions, then all insertions, to where they belong. -/
def Script.compacted [DecidableEq α] (script : Script α) : Script α :=
  let allowance := (Cursor.room script + 1) * (Cursor.room script + 1)
  let settled := Cursor.sweep Step.isDelete allowance [] script
  Cursor.sweep Step.isInsert allowance [] settled

/-- The compacted edit script between two lists. -/
def script [DecidableEq α] (old new : List α) : Script α :=
  Script.compacted (compare old new)

end LintRepair.Diff
