import Mathlib.Data.List.Basic
import Mathlib.Tactic.Common
import LintRepair.Diff.Compaction

/-!
# Edit scripts lead from the old list to the new one

`script_ends` says that the script between two lists starts from the one and leads to the other.
Nothing is asked of the search for a point to split at: wherever it is, the halves of a comparison
are compared on their own, and `compare_ends` is an induction along `compare`.

Compaction moves changes about, and what it must not do is to change the two lists of the script.
`SameEnds` is that relation between scripts.  Every single move exchanges a few neighbouring steps
for others between the same lists, and `SameEnds.within` carries this to the whole script:

* changes of different kinds change places (`sameEnds_swap`), those of one kind are joined
  (`sameEnds_deletes`, `sameEnds_inserts`);
* an insertion passes kept items that it ends or begins with (`sameEnds_passAbove`,
  `sameEnds_passBelow`); that there are such items is `drop_commonBack` and `take_commonFront`;
* a kept run without items disappears.

So `up`, `down`, and with them `sweep`, keep the two lists, whatever the allowance is.
-/

namespace LintRepair.Diff

variable {α : Type}

/-! ## Scripts between the same lists -/

namespace Script

variable {first second third front front' back back' : Script α} {items : List α}

@[simp] theorem old_nil : old ([] : Script α) = [] := rfl

@[simp] theorem new_nil : new ([] : Script α) = [] := rfl

@[simp] theorem old_cons (step : Step α) (rest : Script α) :
    old (step :: rest) = step.old ++ old rest := List.flatMap_cons

@[simp] theorem new_cons (step : Step α) (rest : Script α) :
    new (step :: rest) = step.new ++ new rest := List.flatMap_cons

@[simp] theorem old_append (front back : Script α) : old (front ++ back) = old front ++ old back :=
  List.flatMap_append

@[simp] theorem new_append (front back : Script α) : new (front ++ back) = new front ++ new back :=
  List.flatMap_append

/-- Both scripts lead from the same list to the same list. -/
structure SameEnds (first second : Script α) : Prop where
  old : first.old = second.old
  new : first.new = second.new

namespace SameEnds

theorem refl (script : Script α) : SameEnds script script :=
  ⟨rfl, rfl⟩

theorem trans (h : SameEnds first second) (h' : SameEnds second third) : SameEnds first third :=
  ⟨h.old.trans h'.old, h.new.trans h'.new⟩

theorem append (hfront : SameEnds front front') (hback : SameEnds back back') :
    SameEnds (front ++ back) (front' ++ back') where
  old := by rw [old_append, old_append, hfront.old, hback.old]
  new := by rw [new_append, new_append, hfront.new, hback.new]

/-- A part of a script may give way to another one between the same lists. -/
theorem within {middle middle' : Script α} (h : SameEnds middle middle') (front back : Script α) :
    SameEnds (front ++ middle ++ back) (front ++ middle' ++ back) :=
  ((refl front).append h).append (refl back)

end SameEnds

theorem sameEnds_keeping (items : List α) : SameEnds (keeping items) [.keep items] := by
  cases items <;> exact ⟨rfl, rfl⟩

end Script

open Script (SameEnds)

namespace Cursor

theorem sameEnds_keepBefore (items : List α) (steps : Script α) :
    SameEnds (keepBefore items steps) (.keep items :: steps) := by
  fun_cases keepBefore items steps with
  | case1 next rest => constructor <;> simp [Step.old, Step.new]
  | case2 => exact .refl _

theorem sameEnds_reverse_keepAfter (items : List α) (steps : Script α) :
    SameEnds (keepAfter items steps).reverse (steps.reverse ++ [.keep items]) := by
  fun_cases keepAfter items steps with
  | case1 next rest => constructor <;> simp [Step.old, Step.new]
  | case2 => rw [List.reverse_cons]; exact .refl _

theorem sameEnds_leaving (items : List α) (steps : Script α) :
    SameEnds (leaving items steps) (.keep items :: steps) := by
  cases items <;> exact ⟨rfl, rfl⟩

theorem sameEnds_reverse_leaving (items : List α) (steps : Script α) :
    SameEnds (leaving items steps).reverse (steps.reverse ++ [.keep items]) := by
  cases items with
  | nil => constructor <;> simp [leaving, Step.old, Step.new]
  | cons item items => constructor <;> simp [leaving, Step.old, Step.new]

end Cursor

/-! ## What two lists have in common -/

section Common

variable [DecidableEq α]

theorem take_commonFront (as bs : List α) :
    as.take (commonFront as bs) = bs.take (commonFront as bs) := by
  fun_induction commonFront as bs with
  | case1 a as bs ih => rw [List.take_succ_cons, List.take_succ_cons, ih]
  | case2 a as b bs hne => rfl
  | case3 as bs => rfl

theorem drop_commonBack (as bs : List α) :
    as.drop (as.length - commonBack as bs) = bs.drop (bs.length - commonBack as bs) := by
  have hfront := take_commonFront as.reverse bs.reverse
  rw [List.take_reverse, List.take_reverse, List.reverse_inj] at hfront
  exact hfront

end Common

/-! ## Moves -/

namespace Script

/-- Changes of different kinds may change places. -/
theorem sameEnds_swap {first second : Step α} (hfirst : ∀ kept, first = .keep kept → False)
    (hsecond : ∀ kept, second = .keep kept → False)
    (hdelete : ∀ items own, first = .delete items → second = .delete own → False)
    (hinsert : ∀ items own, first = .insert items → second = .insert own → False) :
    SameEnds [first, second] [second, first] := by
  cases first with
  | keep kept => exact (hfirst kept rfl).elim
  | delete items =>
      cases second with
      | keep kept => exact (hsecond kept rfl).elim
      | delete own => exact (hdelete items own rfl rfl).elim
      | insert own => constructor <;> simp [Step.old, Step.new]
  | insert items =>
      cases second with
      | keep kept => exact (hsecond kept rfl).elim
      | delete own => constructor <;> simp [Step.old, Step.new]
      | insert own => exact (hinsert items own rfl rfl).elim

theorem sameEnds_deletes (items items' : List α) :
    SameEnds [.delete (items ++ items')] [.delete items, .delete items'] := by
  constructor <;> simp [Step.old, Step.new]

theorem sameEnds_inserts (items items' : List α) :
    SameEnds [.insert (items ++ items')] [.insert items, .insert items'] := by
  constructor <;> simp [Step.old, Step.new]

/-- An insertion can pass kept items that it ends with. -/
theorem sameEnds_passAbove (front moved items : List α) :
    SameEnds [.keep front, .insert (moved ++ items), .keep moved]
      [.keep (front ++ moved), .insert (items ++ moved)] := by
  constructor <;> simp [Step.old, Step.new]

/-- An insertion can pass kept items that it begins with. -/
theorem sameEnds_passBelow (moved items back : List α) :
    SameEnds [.keep moved, .insert (items ++ moved), .keep back]
      [.insert (moved ++ items), .keep (moved ++ back)] := by
  constructor <;> simp [Step.old, Step.new]

end Script

namespace Cursor

variable [DecidableEq α] {kept items : List α} {current : Step α}

theorem up_sameEnds (before : List (Step α)) (current : Step α) (after : List (Step α))
    (hchange : ∀ kept, current ≠ .keep kept) :
    SameEnds (up before current after).script (before.reverse ++ current :: after) := by
  -- Each case is one move of the change to the front, and keeps both ends by a lemma above.
  fun_induction up before current after with
  | case1 current after => exact .refl _
  | case2 kept rest current after slack hslack moved ih =>
    cases current with
    | keep items => exact absurd rfl (hchange items)
    | delete items => exact absurd hslack.1 (Nat.lt_irrefl 0)
    | insert items =>
      -- The kept items behind the insertion's own end pass it, and what is left of them stays.
      let front := kept.take (kept.length - slack)
      let others := items.take (items.length - slack)
      have hkept : front ++ moved = kept := List.take_append_drop ..
      have hitems : others ++ moved = items := by
        have hmoved : moved = items.drop (items.length - slack) := drop_commonBack kept items
        rw [hmoved, List.take_append_drop]
      have hparts := (sameEnds_reverse_leaving front rest).append
        ((SameEnds.refl [.insert (moved ++ others)]).append (sameEnds_keepBefore moved after))
      have hpass := (Script.sameEnds_passAbove front moved others).within rest.reverse after
      rw [hkept, hitems] at hpass
      refine (ih (by simp)).trans (hparts.trans ?_)
      simpa using hpass
  | case3 kept rest current after slack hslack hempty ih =>
    -- Nothing is kept between the changes, so the step is dropped.
    refine (ih hchange).trans ?_
    have hdrop := Script.sameEnds_keeping kept
    rw [Script.keeping, if_pos hempty] at hdrop
    simpa using hdrop.within rest.reverse (current :: after)
  | case4 => exact .refl _
  | case5 items rest own after ih =>
    -- Changes of one kind that meet are joined, and changes of two kinds are swapped below.
    have hjoin := (Script.sameEnds_deletes items own).within rest.reverse after
    refine (ih (by simp)).trans ?_
    simpa using hjoin
  | case6 items rest own after ih =>
    have hjoin := (Script.sameEnds_inserts items own).within rest.reverse after
    refine (ih (by simp)).trans ?_
    simpa using hjoin
  | case7 step rest current after hkeep hdelete hinsert ih =>
    have hswap := (Script.sameEnds_swap hchange hkeep
      (fun own items hcurrent hstep => hdelete items own hcurrent hstep)
      (fun own items hcurrent hstep => hinsert items own hcurrent hstep)).within rest.reverse after
    refine (ih hchange).trans ?_
    simpa using hswap

theorem down_sameEnds (before : List (Step α)) (current : Step α) (after : List (Step α))
    (hchange : ∀ kept, current ≠ .keep kept) :
    SameEnds (down before current after).script (before.reverse ++ current :: after) := by
  -- As for `up`, with the sides exchanged.
  fun_induction down before current after with
  | case1 before current => exact .refl _
  | case2 before current kept rest slack hslack moved ih =>
    cases current with
    | keep items => exact absurd rfl (hchange items)
    | delete items => exact absurd hslack.1 (Nat.lt_irrefl 0)
    | insert items =>
      -- The insertion passes the kept items that it begins with.
      let others := items.drop slack
      let back := kept.drop slack
      have hkept : moved ++ back = kept := List.take_append_drop ..
      have hitems : moved ++ others = items := by
        have hmoved : moved = items.take slack := take_commonFront kept items
        rw [hmoved, List.take_append_drop]
      have hparts := (sameEnds_reverse_keepAfter moved before).append
        ((SameEnds.refl [.insert (others ++ moved)]).append (sameEnds_leaving back rest))
      have hpass := (Script.sameEnds_passBelow moved others back).within before.reverse rest
      rw [hkept, hitems] at hpass
      refine (ih (by simp)).trans (hparts.trans ?_)
      simpa using hpass
  | case3 before current kept rest slack hslack hempty ih =>
    refine (ih hchange).trans ?_
    have hdrop := Script.sameEnds_keeping kept
    rw [Script.keeping, if_pos hempty] at hdrop
    simpa using hdrop.within (before.reverse ++ [current]) rest
  | case4 => exact .refl _
  | case5 before own items rest ih =>
    have hjoin := (Script.sameEnds_deletes own items).within before.reverse rest
    refine (ih (by simp)).trans ?_
    simpa using hjoin
  | case6 before own items rest ih =>
    have hjoin := (Script.sameEnds_inserts own items).within before.reverse rest
    refine (ih (by simp)).trans ?_
    simpa using hjoin
  | case7 before current step rest hkeep hdelete hinsert ih =>
    have hswap := (Script.sameEnds_swap hkeep hchange
      (fun items own hstep hcurrent => hdelete own items hcurrent hstep)
      (fun items own hstep hcurrent => hinsert own items hcurrent hstep)).within before.reverse rest
    refine (ih hchange).trans ?_
    simpa using hswap

/-- A change that is moved up remains a change. -/
theorem current_up_ne_keep (before : List (Step α)) (current : Step α) (after : List (Step α))
    (hchange : ∀ kept, current ≠ .keep kept) (kept : List α) :
    (up before current after).current ≠ .keep kept := by
  fun_induction up before current after with
  | case1 current after => exact hchange kept
  | case2 _ _ _ _ _ _ _ ih => exact ih (by simp)
  | case3 _ _ _ _ _ _ _ ih => exact ih hchange
  | case4 => exact hchange kept
  | case5 items rest own after ih => exact ih (by simp)
  | case6 items rest own after ih => exact ih (by simp)
  | case7 _ _ _ _ _ _ _ ih => exact ih hchange

theorem settle_sameEnds (cursor : Cursor α) (hchange : ∀ kept, cursor.current ≠ .keep kept) :
    SameEnds (settle cursor).script cursor.script :=
  (down_sameEnds _ _ _ (current_up_ne_keep _ _ _ hchange)).trans (up_sameEnds _ _ _ hchange)

theorem sweep_sameEnds {moves : Step α → Bool} (hmoves : ∀ kept, moves (.keep kept) = false)
    (allowance : Nat) (before after : List (Step α)) :
    SameEnds (sweep moves allowance before after) (before.reverse ++ after) := by
  induction allowance generalizing before after with
  | zero => exact .refl _
  | succ allowance ih =>
      cases after with
      | nil => simpa [sweep] using SameEnds.refl before.reverse
      | cons step after =>
          rw [sweep]
          -- A step that is to be moved is settled first, any other one is passed.
          refine (ih _ _).trans ?_
          rw [List.reverse_cons, List.append_assoc]
          split
          next hstep =>
            refine settle_sameEnds _ ?_
            rintro kept rfl
            rw [hmoves] at hstep
            cases hstep
          next => exact .refl _

end Cursor

theorem Script.compacted_sameEnds [DecidableEq α] (script : Script α) :
    SameEnds script.compacted script := by
  unfold compacted
  refine (Cursor.sweep_sameEnds (fun _ => rfl) _ [] _).trans ?_
  exact Cursor.sweep_sameEnds (fun _ => rfl) _ [] script

/-! ## Comparison -/

variable [DecidableEq α]

theorem compare_ends (old new : List α) :
    (compare old new).old = old ∧ (compare old new).new = new := by
  fun_induction compare old new with
  | case1 old new front back oldMiddle newMiddle middle ihBefore ihBehind =>
    -- Between the common front and back the script leads from the one middle to the other, however
    -- it is split.
    have hmiddle : middle.old = oldMiddle ∧ middle.new = newMiddle := by
      unfold middle
      split_ifs with hboth hnew hold
      · rw [Bool.and_eq_true, List.isEmpty_iff, List.isEmpty_iff] at hboth
        rw [hboth.1, hboth.2]
        exact ⟨rfl, rfl⟩
      · rw [List.isEmpty_iff.mp hnew]
        simp [Step.old, Step.new]
      · rw [List.isEmpty_iff.mp hold]
        simp [Step.old, Step.new]
      · split
        next split _ =>
          rw [Script.old_append, Script.new_append, (ihBefore split).1, (ihBefore split).2,
            (ihBehind split).1, (ihBehind split).2, List.take_append_drop, List.take_append_drop]
          exact ⟨rfl, rfl⟩
        next => simp [Step.old, Step.new]
    have hfront : old.take front = new.take front := take_commonFront old new
    -- What is kept at the end belongs to both lists, so it may be counted in either.
    have hback : (old.drop front).drop (old.length - front - back) =
        (new.drop front).drop (new.length - front - back) := by
      have hcommon := drop_commonBack (old.drop front) (new.drop front)
      rwa [List.length_drop, List.length_drop] at hcommon
    constructor
    · calc (Script.keeping (old.take front) ++ middle ++
              Script.keeping ((old.drop front).drop (old.length - front - back))).old
          = old.take front ++ ((old.drop front).take (old.length - front - back) ++
              (old.drop front).drop (old.length - front - back)) := by
            simp [(Script.sameEnds_keeping _).old, hmiddle.1, oldMiddle, Step.old]
        _ = old := by rw [List.take_append_drop, List.take_append_drop]
    · calc (Script.keeping (old.take front) ++ middle ++
              Script.keeping ((old.drop front).drop (old.length - front - back))).new
          = new.take front ++ ((new.drop front).take (new.length - front - back) ++
              (new.drop front).drop (new.length - front - back)) := by
            rw [← hfront, ← hback]
            simp [(Script.sameEnds_keeping _).new, hmiddle.2, newMiddle, Step.new]
        _ = new := by rw [List.take_append_drop, List.take_append_drop]

/-- The script between two lists leads from the one to the other. -/
theorem script_ends (old new : List α) :
    (script old new).old = old ∧ (script old new).new = new := by
  have hcompacted := Script.compacted_sameEnds (compare old new)
  have hcompare := compare_ends old new
  exact ⟨hcompacted.old.trans hcompare.1, hcompacted.new.trans hcompare.2⟩

/-! ## A list and itself -/

theorem commonFront_self (items : List α) : commonFront items items = items.length := by
  induction items with
  | nil => rfl
  | cons item items ih => rw [commonFront, if_pos rfl, ih, List.length_cons]

theorem compare_self (items : List α) : compare items items = Script.keeping items := by
  rw [compare]
  simp [commonFront_self, Script.keeping]

/-- Nothing happens to a script without the steps that are to be moved. -/
theorem Cursor.sweep_of_forall_not {moves : Step α → Bool} (allowance : Nat)
    (before after : List (Step α)) (hnone : ∀ step ∈ after, moves step = false) :
    sweep moves allowance before after = before.reverse ++ after := by
  induction allowance generalizing before after with
  | zero => rfl
  | succ allowance ih =>
      cases after with
      | nil => simp [sweep]
      | cons step after =>
          rw [List.forall_mem_cons] at hnone
          rw [sweep, if_neg (by simp [hnone.1]), ih _ _ hnone.2, List.reverse_cons,
            List.append_assoc]
          rfl

/-- The script between a list and itself keeps everything. -/
theorem script_self (items : List α) : script items items = Script.keeping items := by
  have hkeeps : ∀ step ∈ Script.keeping items, step = .keep items := by
    intro step hstep
    unfold Script.keeping at hstep
    split at hstep
    · cases hstep
    · exact List.mem_singleton.mp hstep
  -- A script that keeps everything has nothing to be moved.
  have hsettled : ∀ moves : Step α → Bool, moves (.keep items) = false → ∀ allowance,
      Cursor.sweep moves allowance [] (Script.keeping items) = Script.keeping items := by
    intro moves hmoves allowance
    exact Cursor.sweep_of_forall_not allowance [] _ fun step hstep => hkeeps step hstep ▸ hmoves
  simp only [script, Script.compacted, compare_self, hsettled Step.isDelete rfl,
    hsettled Step.isInsert rfl]

end LintRepair.Diff
