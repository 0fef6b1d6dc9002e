import LintRepair.Proofs.Patch.Rebuild
import LintRepair.Proofs.Patch.Size
import LintRepair.Proofs.Selection.Split
import LintRepair.Repair.InPlace

/-!
# Repairing in place

A repair in place selects among the first fixes of the failures and patches the source with what it
selected.  Nothing is checked in between: that the patch never meets an overlap rests on three
invariants, one for each step.

* The replacements of one fix are disjoint, which is part of the type `Fix`.
* Selected fixes do not conflict (`Selection.selected_pairwise`).  Ends that leave the range of
  words are cut off at the largest word, and the selection compares them as they are.
* A patch accepts every list without overlaps (`Patch.check_eq_ok_iff`).

`chosen_pairwise` joins the first two.  So a repair fails for one reason only, a selected
replacement that does not fit the source (`repair_fails_only_on_misfit`), and when it succeeds
nothing that remains could have been added (`repair_selects_maximal_split`).
-/

namespace LintRepair.InPlace

variable {file source : String} {failures : List Failure}

/-- The replacements of the selected first fixes, in candidate order. -/
def chosen (failures : List Failure) : List Replacement :=
  (select (candidates failures)).replacements

/-- No two replacements that a repair carries out overlap. -/
theorem chosen_pairwise (failures : List Failure) :
    (chosen failures).Pairwise fun a b => ¬ a.Overlaps b := by
  unfold chosen Selection.replacements
  rw [List.pairwise_flatMap]
  -- Within one fix by its type, across two fixes because both were selected.
  refine ⟨fun fix _ => fix.disjoint, ?_⟩
  refine (Selection.selected_pairwise (candidates failures)).imp fun {a b} hfree => ?_
  intro r hr s hs hoverlaps
  exact hfree ⟨r, hr, s, hs, hoverlaps⟩

/-! ## From the patch to the repair -/

/-- The repair that puts down a patched text, with both sides of the selection. -/
def repaired (file : String) (failures : List Failure) (content : String) : Repair :=
  let selection := select (candidates failures)
  { file, content
    message := summary selection.selected.length selection.remaining.length
    applied := selection.selected
    remaining := selection.remaining }

theorem repair_of_apply_eq_ok {content : String}
    (h : Patch.apply source (chosen failures) = .ok content) :
    repair file source failures = .ok (repaired file failures content) := by
  unfold chosen at h
  simp only [repair]
  rw [h]
  rfl

theorem repair_of_apply_eq_error {cause : PatchError}
    (h : Patch.apply source (chosen failures) = .error cause) :
    repair file source failures = .error ⟨file, cause⟩ := by
  unfold chosen at h
  simp only [repair]
  rw [h]
  rfl

theorem repair_eq_ok_iff {outcome : Repair} :
    repair file source failures = .ok outcome ↔
      ∃ content, Patch.apply source (chosen failures) = .ok content ∧
        repaired file failures content = outcome := by
  cases happly : Patch.apply source (chosen failures) with
  | ok content => simp [repair_of_apply_eq_ok happly]
  | error cause => simp [repair_of_apply_eq_error happly]

theorem repair_eq_error_iff {error : RepairError} :
    repair file source failures = .error error ↔
      ∃ cause, Patch.apply source (chosen failures) = .error cause ∧ ⟨file, cause⟩ = error := by
  cases happly : Patch.apply source (chosen failures) with
  | ok content => simp [repair_of_apply_eq_ok happly]
  | error cause => simp [repair_of_apply_eq_error happly]

/-- Replacements that are tried one after the other refuse a repair for the first one that does not
fit. -/
theorem refused_iff_misfit {replacements : List Replacement} {error : RepairError} :
    (∃ cause, (replacements.forM fun r => (r.validate source).mapError PatchError.edit) =
        .error cause ∧ ⟨file, cause⟩ = error) ↔
      ∃ front r back cause, replacements = front ++ r :: back ∧
        (∀ s ∈ front, s.validate source = .ok ()) ∧ r.validate source = .error cause ∧
        error = ⟨file, .edit cause⟩ := by
  constructor
  · rintro ⟨_, hmisfit, rfl⟩
    obtain ⟨front, r, back, cause, hsplit, hfront, hr, rfl⟩ :=
      Patch.forM_validate_eq_error_iff.mp hmisfit
    exact ⟨front, r, back, cause, hsplit, hfront, hr, rfl⟩
  · rintro ⟨front, r, back, cause, hsplit, hfront, hr, rfl⟩
    exact ⟨.edit cause,
      Patch.forM_validate_eq_error_iff.mpr ⟨front, r, back, cause, hsplit, hfront, hr, rfl⟩, rfl⟩

/-- The patch of a repair is refused for a selected replacement that does not fit, and for nothing
else. -/
theorem repair_eq_error_iff_misfit {error : RepairError} :
    repair file source failures = .error error ↔
      ∃ front r back cause, chosen failures = front ++ r :: back ∧
        (∀ s ∈ front, s.validate source = .ok ()) ∧ r.validate source = .error cause ∧
        error = ⟨file, .edit cause⟩ := by
  rw [repair_eq_error_iff, ← refused_iff_misfit,
    ← Patch.check_of_disjoint source (chosen_pairwise failures)]
  simp only [Patch.apply_eq_error_iff]

/-- A repair succeeds exactly when every selected replacement fits the source, and fails otherwise
with the error of the first one that does not.  It never meets an overlap, no span that it exchanges
misses the character boundaries of the text at that moment, and no size that it computes leaves the
range of words as long as the source and the texts fit into memory together. -/
theorem repair_fails_only_on_misfit (file source : String) (failures : List Failure) :
    ((∃ outcome, repair file source failures = .ok outcome) ↔
      ∀ r ∈ chosen failures, r.validate source = .ok ()) ∧
    (∀ error, repair file source failures = .error error ↔
      ∃ front r back cause, chosen failures = front ++ r :: back ∧
        (∀ s ∈ front, s.validate source = .ok ()) ∧ r.validate source = .error cause ∧
        error = ⟨file, .edit cause⟩) ∧
    (∀ other first second,
      repair file source failures ≠ .error ⟨other, .overlap first second⟩) ∧
    (∀ outcome, repair file source failures = .ok outcome →
      Patch.spliceAll? (Patch.applicationOrder (chosen failures)) source.toList =
          some outcome.content.toList ∧
        (source.utf8ByteSize + Patch.inserted (chosen failures) < 2 ^ 63 →
          Patch.SizesFit source (chosen failures))) := by
  have hdisjoint := chosen_pairwise failures
  refine ⟨⟨?_, ?_⟩, fun _ => repair_eq_error_iff_misfit, ?_, ?_⟩
  · rintro ⟨outcome, hrepair⟩
    obtain ⟨content, happly, _⟩ := repair_eq_ok_iff.mp hrepair
    exact Patch.validate_of_apply happly
  · intro hvalid
    obtain ⟨content, happly, _⟩ := Patch.exists_apply_eq_ok hvalid hdisjoint
    exact ⟨_, repair_of_apply_eq_ok happly⟩
  · -- The errors of a repair are those of its first misfit, and a misfit is no overlap.
    intro other first second hrepair
    obtain ⟨_, _, _, _, _, _, _, hcause⟩ := repair_eq_error_iff_misfit.mp hrepair
    cases hcause
  · intro outcome hrepair
    obtain ⟨content, happly, rfl⟩ := repair_eq_ok_iff.mp hrepair
    have hvalid := Patch.validate_of_apply happly
    obtain ⟨patched, hpatched, hrun, _⟩ := Patch.exists_apply_eq_ok hvalid hdisjoint
    rw [happly, Except.ok.injEq] at hpatched
    subst hpatched
    exact ⟨hrun, Patch.sizesFit hvalid hdisjoint⟩

/-- A selected replacement whose end is no word refuses the repair; the one that lies past the end
of the source as well is deferred and does no harm. -/
theorem repair_fails_only_on_misfit_overflow :
    repair "a.ts" "abcd" [
      .clamped "a.ts" "r" 0 0 "" .error [.single "r" ⟨1, 2, "x", 0⟩, .single "r" ⟨9, 9, "", 0⟩],
      .clamped "a.ts" "s" 0 0 "" .error [.single "s" ⟨2, 77, "y", 0⟩],
      .clamped "a.ts" "t" 0 0 "" .error [.single "t" ⟨18446744073709551615, 3, "z", 1⟩]] =
    .error ⟨"a.ts", .edit (.overflow 18446744073709551615 3)⟩ := by
  refine ((repair_fails_only_on_misfit ..).2.1 _).mpr
    ⟨[⟨1, 2, "x", 0⟩], ⟨18446744073709551615, 3, "z", 1⟩, [], _, rfl, ?_, rfl, rfl⟩
  intro s hs
  rw [List.mem_singleton.mp hs]
  rfl

/-! ## How many fixes there are -/

/-- There is one candidate for every failure with fixes. -/
theorem length_candidates (failures : List Failure) :
    (candidates failures).length = failures.countP Failure.hasFixes := by
  induction failures with
  | nil => rfl
  | cons failure rest ih =>
      unfold candidates at ih ⊢
      rw [List.filterMap_cons, List.countP_cons, ← ih]
      unfold Failure.candidate? Failure.hasFixes
      cases failure.fixes with
      | nil => rfl
      | cons first others => rfl

/-- Every failure with fixes has one that is applied or one that remains. -/
theorem length_applied_add_remaining {outcome : Repair}
    (hrepair : repair file source failures = .ok outcome) :
    outcome.applied.length + outcome.remaining.length = failures.countP Failure.hasFixes := by
  obtain ⟨content, -, rfl⟩ := repair_eq_ok_iff.mp hrepair
  rw [← length_candidates]
  exact Selection.length_selected_add_remaining (candidates failures)

/-! ## What remains -/

/-- No fix that remains can be added to those that were applied. -/
theorem exists_error_of_mem_remaining {outcome : Repair} {r : Fix}
    (hrepair : repair file source failures = .ok outcome) (hr : r ∈ outcome.remaining) :
    ∃ error, Patch.apply source
      (outcome.applied.flatMap Fix.replacements ++ r.replacements) = .error error := by
  obtain ⟨content, _, rfl⟩ := repair_eq_ok_iff.mp hrepair
  obtain ⟨a, ha, s, hs, t, ht, hoverlaps⟩ := Selection.exists_selected_of_mem_remaining hr
  apply Patch.exists_apply_eq_error
  by_contra hnone
  rw [not_hasOverlap_iff, List.pairwise_append] at hnone
  exact hnone.2.2 s (List.mem_flatMap.mpr ⟨a, ha, hs⟩) t ht hoverlaps

/-- Selecting is the one split of the candidates in which kept ones do not conflict and deferred
ones conflict with a kept one before them.  A repair that succeeds applies the one side of it, and
no fix on the other side could have been applied as well. -/
theorem repair_selects_maximal_split :
    (∀ fixes : List Fix, ∃ kept deferred, Selection.IsSplit fixes kept deferred ∧
      select fixes = ⟨Selection.fixesAt fixes kept, Selection.fixesAt fixes deferred⟩ ∧
      ∀ kept' deferred', Selection.IsSplit fixes kept' deferred' →
        kept' = kept ∧ deferred' = deferred) ∧
    (∀ file source failures outcome, repair file source failures = .ok outcome →
      (∀ kept deferred, Selection.IsSplit (candidates failures) kept deferred →
        outcome.applied = Selection.fixesAt (candidates failures) kept ∧
        outcome.remaining = Selection.fixesAt (candidates failures) deferred) ∧
      ∀ r ∈ outcome.remaining, ∃ error, Patch.apply source
        (outcome.applied.flatMap Fix.replacements ++ r.replacements) = .error error) := by
  constructor
  · intro fixes
    obtain ⟨kept, deferred, hsplit, hselect⟩ := Selection.exists_isSplit fixes
    exact ⟨kept, deferred, hsplit, hselect, fun _ _ hother => hsplit.unique hother⟩
  · intro file source failures outcome hrepair
    refine ⟨?_, fun r hr => exists_error_of_mem_remaining hrepair hr⟩
    intro kept deferred hsplit
    -- A repair reports the two sides of its selection, and there is only one split.
    obtain ⟨content, _, rfl⟩ := repair_eq_ok_iff.mp hrepair
    have hselect := Selection.select_of_isSplit hsplit
    exact ⟨congrArg Selection.selected hselect, congrArg Selection.remaining hselect⟩

/-- Three failures, of which the fix of the second reaches into those of the others. -/
def chain : List Failure := [
  .clamped "a.ts" "r" 0 0 "" .error [.single "r" ⟨0, 4, "x", 0⟩],
  .clamped "a.ts" "s" 0 0 "" .error [.single "s" ⟨2, 6, "y", 0⟩],
  .clamped "a.ts" "t" 0 0 "" .error [.single "t" ⟨6, 3, "z", 0⟩]]

theorem repair_selects_maximal_split_chain :
    ∃ outcome, repair "a.ts" "abcdefghi" chain = .ok outcome ∧
      outcome.remaining = [.single "s" ⟨2, 6, "y", 0⟩] ∧
      ∃ error, Patch.apply "abcdefghi" (outcome.applied.flatMap Fix.replacements ++
        (Fix.single "s" ⟨2, 6, "y", 0⟩).replacements) = .error error := by
  have hvalid : ∀ r ∈ chosen chain, r.validate "abcdefghi" = .ok () := by
    have hchosen : chosen chain = [⟨0, 4, "x", 0⟩, ⟨6, 3, "z", 0⟩] := rfl
    rw [hchosen]
    simp only [List.forall_mem_cons]
    exact ⟨rfl, rfl, by simp⟩
  obtain ⟨content, happly, _⟩ := Patch.exists_apply_eq_ok hvalid (chosen_pairwise chain)
  have hrepair : repair "a.ts" "abcdefghi" chain = .ok (repaired "a.ts" chain content) :=
    repair_of_apply_eq_ok happly
  refine ⟨_, hrepair, rfl, ?_⟩
  exact (repair_selects_maximal_split.2 _ _ _ _ hrepair).2 _ List.mem_cons_self

end LintRepair.InPlace
