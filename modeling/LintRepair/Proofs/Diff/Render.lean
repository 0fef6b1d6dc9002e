import LintRepair.Proofs.Diff.Script
import LintRepair.Proofs.Patch.Order
import LintRepair.Proofs.Text.Lines
import LintRepair.Repair.Preview

/-!
# A line diff tells what would change

`IsDiff` says what a line diff is, without a word about how it is found: the lines with a minus are
lines of the old text, those with a plus are lines of the new one, and apart from them both texts
have the same lines.  Lines are named by their positions, since a text may have a line twice.

* `Script.itemsWhere_pickedFrom` reads positions off a script: a step picks all its items on a side
  or none, and those that no step picks are kept on both sides.
* `Script.isDiff` puts this together with what is printed.  The lines of the output are those that
  were printed, because each of them ends with a line feed (`Text.lines_flatten`).
* Nothing is shown only if the texts are the same (`render_eq_empty_iff`): without shown lines both
  texts are what they have in common, and a script between equal texts keeps everything
  (`script_self`).
-/

namespace LintRepair.Diff

open Text (Line)

variable {α : Type}

/-! ## Items by position -/

/-- The items at the positions that pass a test, where the first one stands at `n`. -/
def itemsWhere (test : Nat → Bool) (n : Nat) (items : List α) : List α :=
  ((items.zipIdx n).filter fun entry => test entry.2).map Prod.fst

/-- The items at some positions. -/
def itemsAt (items : List α) (positions : List Nat) : List α :=
  itemsWhere (fun i => decide (i ∈ positions)) 0 items

/-- The items that are left without those at some positions. -/
def itemsWithout (items : List α) (positions : List Nat) : List α :=
  itemsWhere (fun i => !decide (i ∈ positions)) 0 items

theorem itemsWhere_append (test : Nat → Bool) (n : Nat) (front back : List α) :
    itemsWhere test n (front ++ back) =
      itemsWhere test n front ++ itemsWhere test (n + front.length) back := by
  simp only [itemsWhere, List.zipIdx_append, List.filter_append, List.map_append]

theorem itemsWhere_congr {test test' : Nat → Bool} {n : Nat} {items : List α}
    (hsame : ∀ i, n ≤ i → i < n + items.length → test i = test' i) :
    itemsWhere test n items = itemsWhere test' n items := by
  unfold itemsWhere
  rw [List.filter_congr]
  intro entry hentry
  exact hsame _ (List.le_snd_of_mem_zipIdx hentry) (List.snd_lt_add_of_mem_zipIdx hentry)

theorem itemsAt_sublist (items : List α) (positions : List Nat) :
    (itemsAt items positions).Sublist items := by
  have hsublist : (itemsAt items positions).Sublist (items.zipIdx.map Prod.fst) :=
    List.filter_sublist.map Prod.fst
  rwa [List.zipIdx_map_fst] at hsublist

/-- Where the test does not look at positions, all items pass it or none. -/
theorem itemsWhere_const (passes : Bool) (n : Nat) (items : List α) :
    itemsWhere (fun _ => passes) n items = if passes then items else [] := by
  cases passes with
  | true => simp [itemsWhere, List.zipIdx_map_fst]
  | false => simp [itemsWhere]

namespace Script

/-- The positions that the steps of a script pick on one of its sides, where `n` items of this side
have gone before. -/
def pickedFrom (side picked : Step α → List α) : Nat → Script α → List Nat
  | _, [] => []
  | n, step :: rest =>
      List.range' n (picked step).length ++
        pickedFrom side picked (n + (side step).length) rest

/-- The positions of the deleted items in the old list. -/
def deletedPositions (script : Script α) : List Nat :=
  pickedFrom Step.old Step.deleted 0 script

/-- The positions of the inserted items in the new list. -/
def insertedPositions (script : Script α) : List Nat :=
  pickedFrom Step.new Step.inserted 0 script

/-- Every step picks all of its items on a side, or none. -/
def PicksWhole (side picked : Step α → List α) : Prop :=
  ∀ step, picked step = side step ∧ kept [step] = [] ∨ picked step = [] ∧ kept [step] = side step

theorem picksWhole_deleted : @PicksWhole α Step.old Step.deleted := by
  intro step
  cases step <;> simp [Step.old, Step.deleted, kept]

theorem picksWhole_inserted : @PicksWhole α Step.new Step.inserted := by
  intro step
  cases step <;> simp [Step.new, Step.inserted, kept]

variable {side picked : Step α → List α} {i n : Nat}

theorem PicksWhole.length_le (hpicks : PicksWhole side picked) (step : Step α) :
    (picked step).length ≤ (side step).length := by
  rcases hpicks step with ⟨hpicked, _⟩ | ⟨hpicked, _⟩ <;> simp [hpicked]

theorem bounds_of_mem_pickedFrom (hpicks : PicksWhole side picked) {script : Script α}
    (hi : i ∈ pickedFrom side picked n script) : n ≤ i ∧ i < n + (script.flatMap side).length := by
  induction script generalizing n with
  | nil => cases hi
  | cons step rest ih =>
      rw [List.flatMap_cons, List.length_append]
      rcases List.mem_append.mp hi with hi | hi
      · have hlength := hpicks.length_le step
        rw [List.mem_range'_1] at hi
        omega
      · have hrest := ih hi
        omega

theorem pickedFrom_pairwise (hpicks : PicksWhole side picked) (n : Nat) (script : Script α) :
    (pickedFrom side picked n script).Pairwise (· < ·) := by
  induction script generalizing n with
  | nil => exact .nil
  | cons step rest ih =>
      rw [pickedFrom, List.pairwise_append]
      -- Positions from later steps lie behind those of this one.
      refine ⟨List.pairwise_lt_range', ih _, ?_⟩
      intro i hi j hj
      have hlater := (bounds_of_mem_pickedFrom hpicks hj).1
      have hlength := hpicks.length_le step
      rw [List.mem_range'_1] at hi
      omega

theorem mem_pickedFrom_cons_of_lt (hpicks : PicksWhole side picked) {step : Step α}
    {rest : Script α} (hlt : i < n + (side step).length) :
    i ∈ pickedFrom side picked n (step :: rest) ↔ i ∈ List.range' n (picked step).length := by
  rw [pickedFrom, List.mem_append, or_iff_left_iff_imp]
  intro hlater
  have hbound := (bounds_of_mem_pickedFrom hpicks hlater).1
  omega

theorem mem_pickedFrom_cons_of_le (hpicks : PicksWhole side picked) {step : Step α}
    {rest : Script α} (hle : n + (side step).length ≤ i) :
    i ∈ pickedFrom side picked n (step :: rest) ↔
      i ∈ pickedFrom side picked (n + (side step).length) rest := by
  rw [pickedFrom, List.mem_append, or_iff_right_iff_imp]
  intro hfirst
  have hlength := hpicks.length_le step
  rw [List.mem_range'_1] at hfirst
  omega

/-- A test that asks for nothing but whether a position is picked finds what the steps pick, what
they keep, or both. -/
theorem itemsWhere_pickedFrom (hpicks : PicksWhole side picked) (passes : Bool → Bool) (n : Nat)
    (script : Script α) :
    itemsWhere (fun i => passes (decide (i ∈ pickedFrom side picked n script))) n
        (script.flatMap side) =
      script.flatMap fun step => (if passes true then picked step else []) ++
        if passes false then kept [step] else [] := by
  induction script generalizing n with
  | nil => rfl
  | cons step rest ih =>
      -- The items of this step and those behind it are told apart by their positions.
      have hrest : itemsWhere
            (fun i => passes (decide (i ∈ pickedFrom side picked n (step :: rest))))
            (n + (side step).length) (rest.flatMap side) =
          itemsWhere (fun i =>
              passes (decide (i ∈ pickedFrom side picked (n + (side step).length) rest)))
            (n + (side step).length) (rest.flatMap side) := by
        refine itemsWhere_congr fun i hle _ => congrArg passes (decide_eq_decide.mpr ?_)
        exact mem_pickedFrom_cons_of_le hpicks hle
      rw [List.flatMap_cons, itemsWhere_append, hrest, ih, List.flatMap_cons]
      congr 1
      -- A step picks all of its items or none, so the test is the same for all of them.
      rcases hpicks step with ⟨hpicked, hkept⟩ | ⟨hpicked, hkept⟩
      · have hall : itemsWhere
              (fun i => passes (decide (i ∈ pickedFrom side picked n (step :: rest)))) n
              (side step) =
            itemsWhere (fun _ => passes true) n (side step) := by
          refine itemsWhere_congr fun i hle hlt => congrArg passes (decide_eq_true ?_)
          rw [mem_pickedFrom_cons_of_lt hpicks hlt, hpicked, List.mem_range'_1]
          exact ⟨hle, hlt⟩
        rw [hall, itemsWhere_const, hpicked, hkept]
        simp
      · have hnone : itemsWhere
              (fun i => passes (decide (i ∈ pickedFrom side picked n (step :: rest)))) n
              (side step) =
            itemsWhere (fun _ => passes false) n (side step) := by
          refine itemsWhere_congr fun i hle hlt => congrArg passes (decide_eq_false ?_)
          rw [mem_pickedFrom_cons_of_lt hpicks hlt, hpicked]
          exact List.not_mem_nil
        rw [hnone, itemsWhere_const, hpicked, hkept]
        simp

theorem itemsAt_pickedFrom (hpicks : PicksWhole side picked) (script : Script α) :
    itemsAt (script.flatMap side) (pickedFrom side picked 0 script) = script.flatMap picked := by
  have hid := itemsWhere_pickedFrom hpicks id 0 script
  simpa [itemsAt] using hid

theorem itemsWithout_pickedFrom (hpicks : PicksWhole side picked) (script : Script α) :
    itemsWithout (script.flatMap side) (pickedFrom side picked 0 script) = kept script := by
  have hnot := itemsWhere_pickedFrom hpicks not 0 script
  have hkept : kept script = script.flatMap fun step => kept [step] := by
    simp [kept]
  rw [hkept]
  simpa [itemsWithout] using hnot

end Script

/-! ## Changes -/

namespace Script

theorem flatMap_deleted_changesFrom (pending : Change α) (script : Script α) :
    (changesFrom pending script).flatMap Change.deleted = pending.deleted ++ deleted script := by
  induction script generalizing pending with
  | nil => simp [changesFrom, deleted]
  | cons step rest ih =>
      cases step <;> simp [changesFrom, deleted, Step.deleted, ih]

theorem flatMap_inserted_changesFrom (pending : Change α) (script : Script α) :
    (changesFrom pending script).flatMap Change.inserted = pending.inserted ++ inserted script := by
  induction script generalizing pending with
  | nil => simp [changesFrom, inserted]
  | cons step rest ih =>
      cases step <;> simp [changesFrom, inserted, Step.inserted, ih]

theorem flatMap_deleted_changes (script : Script α) :
    script.changes.flatMap Change.deleted = script.deleted :=
  flatMap_deleted_changesFrom {} script

theorem flatMap_inserted_changes (script : Script α) :
    script.changes.flatMap Change.inserted = script.inserted :=
  flatMap_inserted_changesFrom {} script

end Script

/-! ## What is printed -/

/-- The lines of a text that begin with a sign. -/
def shown (sign : Char) (output : String) : List Line :=
  (Text.lines output.toList).filter fun line => line.head? == some sign

/-- The lines that are printed for a change. -/
def Script.Change.printed (change : Script.Change Line) : List Line :=
  change.deleted.map (signed '-') ++ change.inserted.map (signed '+')

theorem Script.Change.flatten_printed (change : Script.Change Line) :
    change.printed.flatten = change.render := by
  simp [printed, render, List.flatMap_def]

/-- The lines that are printed for a script. -/
def Script.printed (script : Script Line) : List Line :=
  script.changes.flatMap Change.printed

theorem Script.flatten_printed (script : Script Line) :
    script.printed.flatten = script.changes.flatMap Change.render := by
  have hrender : Change.render = fun change => change.printed.flatten :=
    funext fun change => change.flatten_printed.symm
  rw [hrender]
  simp only [printed, List.flatMap_def, List.flatten_flatten, List.map_map, Function.comp_def]

theorem Script.mem_printed {script : Script Line} {line : Line} (hline : line ∈ script.printed) :
    (∃ deleted ∈ script.deleted, line = signed '-' deleted) ∨
      ∃ inserted ∈ script.inserted, line = signed '+' inserted := by
  obtain ⟨change, hchange, hline⟩ := List.mem_flatMap.mp hline
  rw [← flatMap_deleted_changes, ← flatMap_inserted_changes]
  rcases List.mem_append.mp hline with hline | hline
  · obtain ⟨deleted, hdeleted, rfl⟩ := List.mem_map.mp hline
    exact Or.inl ⟨deleted, List.mem_flatMap.mpr ⟨change, hchange, hdeleted⟩, rfl⟩
  · obtain ⟨inserted, hinserted, rfl⟩ := List.mem_map.mp hline
    exact Or.inr ⟨inserted, List.mem_flatMap.mpr ⟨change, hchange, hinserted⟩, rfl⟩

theorem head?_signed (sign : Char) (line : Line) : (signed sign line).head? = some sign := rfl

theorem Script.filter_printed {sign : Char} {side : Change Line → List Line}
    (hside : ∀ change : Change Line, (change.printed.filter fun line => line.head? == some sign) =
      (side change).map (signed sign)) (script : Script Line) :
    (script.printed.filter fun line => line.head? == some sign) =
      (script.changes.flatMap side).map (signed sign) := by
  rw [printed, List.filter_flatMap, List.map_flatMap]
  simp only [hside]

theorem Script.Change.filter_printed_minus (change : Change Line) :
    (change.printed.filter fun line => line.head? == some '-') =
      change.deleted.map (signed '-') := by
  simp [printed, List.filter_append, List.filter_map, Function.comp_def, head?_signed]

theorem Script.Change.filter_printed_plus (change : Change Line) :
    (change.printed.filter fun line => line.head? == some '+') =
      change.inserted.map (signed '+') := by
  simp [printed, List.filter_append, List.filter_map, Function.comp_def, head?_signed]

/-! ## Line diffs -/

/-- A text that shows which lines to take out of an old list, and which ones to put in, to get a new
list: those at the positions `dropped` and `added`. -/
structure IsDiff (old new : List Line) (output : String) (dropped added : List Nat) : Prop where
  dropped_ordered : dropped.Pairwise (· < ·)
  dropped_bound : ∀ i ∈ dropped, i < old.length
  added_ordered : added.Pairwise (· < ·)
  added_bound : ∀ i ∈ added, i < new.length
  /-- The lines with a minus are the dropped ones, in their order. -/
  minus : shown '-' output = (itemsAt old dropped).map (signed '-')
  /-- The lines with a plus are the added ones, in their order. -/
  plus : shown '+' output = (itemsAt new added).map (signed '+')
  /-- No other lines are shown. -/
  signed_only : ∀ line ∈ Text.lines output.toList, line.head? = some '-' ∨ line.head? = some '+'
  /-- Apart from them, both lists are the same. -/
  same_rest : itemsWithout old dropped = itemsWithout new added

theorem itemsWithout_of_itemsAt_eq_nil {items : List α} {positions : List Nat}
    (hnone : itemsAt items positions = []) : itemsWithout items positions = items := by
  unfold itemsAt itemsWhere at hnone
  rw [List.map_eq_nil_iff, List.filter_eq_nil_iff] at hnone
  have hall : (items.zipIdx.filter fun entry => !decide (entry.2 ∈ positions)) = items.zipIdx := by
    rw [List.filter_eq_self]
    intro entry hentry
    simpa using hnone entry hentry
  unfold itemsWithout itemsWhere
  rw [hall, List.zipIdx_map_fst]

/-- Where nothing is shown, nothing has changed. -/
theorem IsDiff.eq_of_empty {old new : List Line} {dropped added : List Nat}
    (h : IsDiff old new "" dropped added) : new = old := by
  have hminus : itemsAt old dropped = [] := List.map_eq_nil_iff.mp h.minus.symm
  have hplus : itemsAt new added = [] := List.map_eq_nil_iff.mp h.plus.symm
  calc new = itemsWithout new added := (itemsWithout_of_itemsAt_eq_nil hplus).symm
    _ = itemsWithout old dropped := h.same_rest.symm
    _ = old := itemsWithout_of_itemsAt_eq_nil hminus

theorem isComplete_signed {sign : Char} (hsign : ¬ Text.IsBreak sign) {line : Line}
    (hline : Text.IsLine line) : Text.IsComplete (signed sign line) :=
  Text.isComplete_cons hsign (Text.isComplete_withLineFeed hline)

/-- What is printed for a script between lists of lines is a line diff of them. -/
theorem Script.isDiff (script : Script Line) (hold : ∀ line ∈ script.old, Text.IsLine line)
    (hnew : ∀ line ∈ script.new, Text.IsLine line) :
    IsDiff script.old script.new (String.ofList (script.changes.flatMap Change.render))
      script.deletedPositions script.insertedPositions := by
  have hdeleted : itemsAt script.old script.deletedPositions = script.deleted :=
    itemsAt_pickedFrom picksWhole_deleted script
  have hinserted : itemsAt script.new script.insertedPositions = script.inserted :=
    itemsAt_pickedFrom picksWhole_inserted script
  have hcomplete : ∀ line ∈ script.printed, Text.IsComplete line := by
    intro line hline
    rcases mem_printed hline with ⟨deleted, hmem, rfl⟩ | ⟨inserted, hmem, rfl⟩
    · rw [← hdeleted] at hmem
      exact isComplete_signed (by decide) (hold deleted ((itemsAt_sublist ..).subset hmem))
    · rw [← hinserted] at hmem
      exact isComplete_signed (by decide) (hnew inserted ((itemsAt_sublist ..).subset hmem))
  -- So the lines of the output are those that were printed.
  have hlines : Text.lines (String.ofList (script.changes.flatMap Change.render)).toList =
      script.printed := by
    rw [String.toList_ofList, ← flatten_printed, Text.lines_flatten hcomplete]
  constructor
  · exact pickedFrom_pairwise picksWhole_deleted 0 script
  · intro i hi
    have hbound := (bounds_of_mem_pickedFrom picksWhole_deleted hi).2
    rwa [Nat.zero_add] at hbound
  · exact pickedFrom_pairwise picksWhole_inserted 0 script
  · intro i hi
    have hbound := (bounds_of_mem_pickedFrom picksWhole_inserted hi).2
    rwa [Nat.zero_add] at hbound
  · rw [shown, hlines, filter_printed Change.filter_printed_minus, flatMap_deleted_changes,
      hdeleted]
  · rw [shown, hlines, filter_printed Change.filter_printed_plus, flatMap_inserted_changes,
      hinserted]
  · intro line hline
    rw [hlines] at hline
    rcases mem_printed hline with ⟨deleted, _, rfl⟩ | ⟨inserted, _, rfl⟩
    · exact Or.inl rfl
    · exact Or.inr rfl
  · calc itemsWithout script.old script.deletedPositions
        = kept script := itemsWithout_pickedFrom picksWhole_deleted script
      _ = itemsWithout script.new script.insertedPositions :=
        (itemsWithout_pickedFrom picksWhole_inserted script).symm

theorem isDiff_render (old new : String) :
    IsDiff (Text.lines old.toList) (Text.lines new.toList) (render old new)
      (script (Text.lines old.toList) (Text.lines new.toList)).deletedPositions
      (script (Text.lines old.toList) (Text.lines new.toList)).insertedPositions := by
  have hends := script_ends (Text.lines old.toList) (Text.lines new.toList)
  have hdiff := (script (Text.lines old.toList) (Text.lines new.toList)).isDiff
    (fun line hline => Text.isLine_of_mem_lines (hends.1 ▸ hline))
    (fun line hline => Text.isLine_of_mem_lines (hends.2 ▸ hline))
  rwa [hends.1, hends.2] at hdiff

theorem render_self (text : String) : render text text = "" := by
  unfold render
  rw [script_self, Script.keeping]
  split <;> rfl

/-- The line diff of two texts is empty exactly when they are the same. -/
theorem render_eq_empty_iff (old new : String) : render old new = "" ↔ new = old := by
  constructor
  · intro hempty
    have hdiff := isDiff_render old new
    rw [hempty] at hdiff
    have hlines := congrArg List.flatten hdiff.eq_of_empty
    rw [Text.flatten_lines, Text.flatten_lines] at hlines
    exact String.toList_inj.mp hlines
  · rintro rfl
    exact render_self new

end LintRepair.Diff

namespace LintRepair.Preview

/-- The preview of a fix tells what the fix would do.  Its lines with a minus are lines of the
source, those with a plus are lines of the patched text, and without them, at the positions where
the diff has them, both texts have the same lines.  It is empty only if nothing would change. -/
theorem fixDiff_tells_change {fix : Fix} {source patched : String}
    (happly : fix.apply source = .ok patched) :
    ∃ output, fixDiff source fix = .ok output ∧
      Diff.IsDiff (Text.lines source.toList) (Text.lines patched.toList) output
        (Diff.script (Text.lines source.toList) (Text.lines patched.toList)).deletedPositions
        (Diff.script (Text.lines source.toList) (Text.lines patched.toList)).insertedPositions ∧
      (output = "" ↔ patched = source) := by
  refine ⟨Diff.render source patched, ?_, Diff.isDiff_render source patched,
    Diff.render_eq_empty_iff source patched⟩
  unfold fixDiff
  rw [happly]
  rfl

/-- Of two equal lines one after the other, the second one is shown as the new one. -/
theorem fixDiff_tells_change_repeated_line :
    (Fix.single "copy" ⟨0, 0, "a\n", 0⟩).apply "a\nb\n" = .ok "a\na\nb\n" ∧
      ∃ output, fixDiff "a\nb\n" (.single "copy" ⟨0, 0, "a\n", 0⟩) = .ok output ∧
        Diff.IsDiff [['a', '\n'], ['b', '\n']] [['a', '\n'], ['a', '\n'], ['b', '\n']] output
          [] [1] ∧
        output ≠ "" := by
  have happly : (Fix.single "copy" ⟨0, 0, "a\n", 0⟩).apply "a\nb\n" = .ok "a\na\nb\n" := by
    unfold Fix.apply Fix.single Patch.apply Patch.check
    rw [Patch.applicationOrder_singleton]
    decide
  have hold : Text.lines "a\nb\n".toList = [['a', '\n'], ['b', '\n']] := by decide
  have hnew : Text.lines "a\na\nb\n".toList = [['a', '\n'], ['a', '\n'], ['b', '\n']] := by decide
  have hscript : Diff.script [['a', '\n'], ['b', '\n']] [['a', '\n'], ['a', '\n'], ['b', '\n']] =
      [.keep [['a', '\n']], .insert [['a', '\n']], .keep [['b', '\n']]] := by
    decide +kernel
  obtain ⟨output, houtput, hdiff, hempty⟩ := fixDiff_tells_change happly
  rw [hold, hnew, hscript] at hdiff
  exact ⟨happly, output, houtput, hdiff, fun h => absurd (hempty.mp h) (by decide)⟩

end LintRepair.Preview
