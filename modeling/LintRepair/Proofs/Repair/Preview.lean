import Mathlib.Data.List.Basic
import Mathlib.Tactic.Common
import LintRepair.Proofs.Repair.InPlace
import LintRepair.Repair.Run

/-!
# Previews and repairs in place

A preview tries every fix that is offered, each one alone and all in their order, and ends at the
first error.  As the replacements of one fix do not overlap, the only error of a fix is a
replacement that does not fit.  So the three nested loops of a preview ask nothing but whether the
replacements of all fixes of all failures fit, one after the other (`verdict_repair`).

A repair in place asks this of some of these replacements.  So it succeeds where a preview does,
although it patches the source with several fixes at once.
-/

namespace LintRepair.Preview

variable {file source : String} {failures front back : List Failure} {failure : Failure}
  {first : Fix} {rest : List Fix}

/-- The replacements of all fixes of all failures. -/
def offered (failures : List Failure) : List Replacement :=
  failures.flatMap fun failure => failure.fixes.flatMap Fix.replacements

theorem mem_offered_iff {r : Replacement} :
    r ∈ offered failures ↔
      ∃ failure ∈ failures, ∃ fix ∈ failure.fixes, r ∈ fix.replacements := by
  simp only [offered, List.mem_flatMap]

/-! ## What a preview asks -/

theorem verdict_fixEntry (source : String) (number : Nat) (fix : Fix) :
    FirstError.verdict (fixEntry source number fix) =
      fix.replacements.forM fun r => (r.validate source).mapError PatchError.edit := by
  unfold fixEntry fixDiff Fix.apply
  rw [FirstError.verdict_bind_pure, FirstError.verdict_bind_pure, Patch.verdict_apply,
    Patch.check_of_disjoint source fix.disjoint]

theorem verdict_failureEntry (file source : String) (failure : Failure) :
    FirstError.verdict (failureEntry file source failure) =
      (failure.fixes.flatMap Fix.replacements).forM fun r =>
        (r.validate source).mapError PatchError.edit := by
  unfold failureEntry
  rw [FirstError.verdict_bind_pure, FirstError.verdict_mapM, FirstError.forM_flatMap]
  -- The numbers of the fixes do not matter.
  have hfixes : (failure.fixes.zipIdx 1).map Prod.fst = failure.fixes :=
    List.zipIdx_map_fst 1 failure.fixes
  calc (failure.fixes.zipIdx 1).forM (fun entry =>
        FirstError.verdict (fixEntry source entry.2 entry.1))
      = (failure.fixes.zipIdx 1).forM fun entry =>
          entry.1.replacements.forM fun r => (r.validate source).mapError PatchError.edit := by
        simp only [verdict_fixEntry]
    _ = ((failure.fixes.zipIdx 1).map Prod.fst).forM fun fix =>
          fix.replacements.forM fun r => (r.validate source).mapError PatchError.edit := by
        simp only [List.forM_eq_forM, List.forM_map]
    _ = _ := by rw [hfixes]

theorem verdict_repair (file source : String) (failures : List Failure) :
    FirstError.verdict (repair file source failures) =
      ((offered failures).forM fun r => (r.validate source).mapError PatchError.edit).mapError
        fun cause => ⟨file, cause⟩ := by
  unfold repair offered
  rw [FirstError.verdict_bind_pure, FirstError.verdict_mapError, FirstError.verdict_mapM,
    FirstError.forM_flatMap]
  simp only [verdict_failureEntry]

/-- A preview succeeds exactly if all replacements of all fixes fit. -/
theorem exists_repair_eq_ok_iff :
    (∃ outcome, repair file source failures = .ok outcome) ↔
      ∀ r ∈ offered failures, r.validate source = .ok () := by
  rw [← FirstError.verdict_eq_ok_iff, verdict_repair, FirstError.mapError_eq_ok_iff,
    Patch.forM_validate_eq_ok_iff]

/-- A preview fails with the error of the first replacement that does not fit. -/
theorem repair_eq_error_iff {error : RepairError} :
    repair file source failures = .error error ↔
      ∃ front r back cause, offered failures = front ++ r :: back ∧
        (∀ s ∈ front, s.validate source = .ok ()) ∧ r.validate source = .error cause ∧
        error = ⟨file, .edit cause⟩ := by
  rw [← FirstError.verdict_eq_error_iff, verdict_repair, FirstError.mapError_eq_error_iff]
  exact InPlace.refused_iff_misfit

theorem exists_repair_eq_error_iff :
    (∃ error, repair file source failures = .error error) ↔
      ∃ r ∈ offered failures, ∃ cause, r.validate source = .error cause := by
  constructor
  · rintro ⟨error, hrepair⟩
    obtain ⟨front, r, back, cause, hsplit, -, hr, -⟩ := repair_eq_error_iff.mp hrepair
    refine ⟨r, ?_, cause, hr⟩
    rw [hsplit]
    exact List.mem_append_right _ List.mem_cons_self
  · rintro ⟨r, hmem, cause, hr⟩
    cases hrepair : repair file source failures with
    | error error => exact ⟨error, rfl⟩
    | ok outcome =>
        have hvalid := exists_repair_eq_ok_iff.mp ⟨outcome, hrepair⟩ r hmem
        exact absurd (hvalid.symm.trans hr) (by simp)

/-! ## What a repair in place asks -/

/-- A repair in place carries out replacements that are offered. -/
theorem mem_offered_of_mem_chosen {r : Replacement} (hr : r ∈ InPlace.chosen failures) :
    r ∈ offered failures := by
  obtain ⟨fix, hfix, hr⟩ := List.mem_flatMap.mp hr
  obtain ⟨failure, hfailure, hcandidate⟩ :=
    List.mem_filterMap.mp (Selection.mem_of_mem_selected hfix)
  exact mem_offered_iff.mpr ⟨failure, hfailure, fix, List.mem_of_head? hcandidate, hr⟩

theorem exists_inPlace_of_repair {outcome : Repair}
    (hrepair : repair file source failures = .ok outcome) :
    ∃ done, InPlace.repair file source failures = .ok done := by
  have hvalid := exists_repair_eq_ok_iff.mp ⟨outcome, hrepair⟩
  obtain ⟨content, happly, -⟩ := Patch.exists_apply_eq_ok
    (fun r hr => hvalid r (mem_offered_of_mem_chosen hr)) (InPlace.chosen_pairwise failures)
  exact ⟨_, InPlace.repair_of_apply_eq_ok happly⟩

/-! ## One failure alone -/

/-- Repairing one failure in place is patching the source with its first fix. -/
theorem chosen_singleton (hfixes : failure.fixes = first :: rest) :
    InPlace.chosen [failure] = first.replacements := by
  have hcandidates : candidates [failure] = [first] := by
    unfold candidates Failure.candidate?
    rw [List.filterMap_cons, hfixes]
    rfl
  unfold InPlace.chosen
  rw [hcandidates]
  exact List.append_nil _

theorem inPlace_singleton (file source : String) (hfixes : failure.fixes = first :: rest) :
    (InPlace.repair file source [failure]).map Repair.content =
      (first.apply source).mapError fun cause => ⟨file, cause⟩ := by
  have hchosen := chosen_singleton hfixes
  cases happly : first.apply source with
  | ok content =>
      have hpatch : Patch.apply source (InPlace.chosen [failure]) = .ok content := by
        rw [hchosen]
        exact happly
      rw [InPlace.repair_of_apply_eq_ok hpatch]
      rfl
  | error cause =>
      have hpatch : Patch.apply source (InPlace.chosen [failure]) = .error cause := by
        rw [hchosen]
        exact happly
      rw [InPlace.repair_of_apply_eq_error hpatch]
      rfl

/-! ## What is shown -/

theorem fixEntry_eq_ok_iff {number : Nat} {fix : Fix} {shown : String} :
    fixEntry source number fix = .ok shown ↔
      ∃ patched, fix.apply source = .ok patched ∧
        "#" ++ toString number ++ ": " ++ fix.label ++ "\n" ++ Diff.render source patched =
          shown := by
  unfold fixEntry fixDiff
  cases fix.apply source with
  | error cause => simp
  | ok patched => simp [pure, Except.pure]

/-- What a preview shows of a failure with fixes begins with the diff of its first fix. -/
theorem failureEntry_of_fixes {shown : String} (hfixes : failure.fixes = first :: rest)
    (hentry : failureEntry file source failure = .ok shown) :
    ∃ patched others, first.apply source = .ok patched ∧
      shown = heading file source failure ++ "Suggested fixes:\n" ++
        ("#1: " ++ first.label ++ "\n" ++ Diff.render source patched) ++ others := by
  unfold failureEntry at hentry
  obtain ⟨entries, hentries, hshown⟩ := FirstError.bind_eq_ok_iff.mp hentry
  rw [hfixes, List.zipIdx_cons, List.mapM_cons] at hentries
  obtain ⟨shownFirst, hfirst, hentries⟩ := FirstError.bind_eq_ok_iff.mp hentries
  obtain ⟨later, -, hentries⟩ := FirstError.bind_eq_ok_iff.mp hentries
  obtain ⟨patched, happly, rfl⟩ := fixEntry_eq_ok_iff.mp hfirst
  refine ⟨patched, String.join later, happly, ?_⟩
  have hsome : failure.hasFixes = true := by
    unfold Failure.hasFixes
    rw [hfixes]
    rfl
  have hnumber : "#" ++ toString 1 ++ ": " = "#1: " := by decide
  rw [← Except.ok.inj hshown, ← Except.ok.inj hentries, String.join_cons, hnumber, hsome,
    if_pos rfl]
  exact String.append_assoc.symm

/-- A preview shows the failures one after the other. -/
theorem repair_append {outcome : Repair} (front : List Failure) (failure : Failure)
    (back : List Failure)
    (hrepair : repair file source (front ++ failure :: back) = .ok outcome) :
    ∃ before shown after, repair file source front = .ok before ∧
      failureEntry file source failure = .ok shown ∧ repair file source back = .ok after ∧
      outcome.message = before.message ++ shown ++ after.message := by
  obtain ⟨entries, hentries, houtcome⟩ := FirstError.bind_eq_ok_iff.mp hrepair
  rw [FirstError.mapError_eq_ok_iff, List.mapM_append] at hentries
  -- All entries were made, so those of each part were made on their own.
  obtain ⟨entriesFront, hfront, hentries⟩ := FirstError.bind_eq_ok_iff.mp hentries
  rw [List.mapM_cons] at hentries
  obtain ⟨entriesRest, hrest, hentries⟩ := FirstError.bind_eq_ok_iff.mp hentries
  obtain ⟨shown, hshown, hrest⟩ := FirstError.bind_eq_ok_iff.mp hrest
  obtain ⟨entriesBack, hback, hrest⟩ := FirstError.bind_eq_ok_iff.mp hrest
  refine ⟨⟨file, source, String.join entriesFront, [], []⟩, shown,
    ⟨file, source, String.join entriesBack, [], []⟩, ?_, hshown, ?_, ?_⟩
  · unfold repair
    rw [hfront]
    rfl
  · unfold repair
    rw [hback]
    rfl
  · rw [← Except.ok.inj houtcome, ← Except.ok.inj hentries, ← Except.ok.inj hrest]
    show String.join (entriesFront ++ shown :: entriesBack) = _
    rw [String.join_append, String.join_cons, String.append_assoc]

/-- A preview covers the repair in place.  It fails exactly if some replacement of some fix of some
failure does not fit the source, with the error of the first one in the order of failures, fixes and
replacements, and never with an overlap.  Where it succeeds, so does the repair in place.  Repairing
a failure with fixes alone makes of the source what its first fix makes of it, and this text is the
one whose diff the preview shows as fix number one of the failure. -/
theorem repair_covers_inPlace (file source : String) (failures : List Failure) :
    ((∃ error, repair file source failures = .error error) ↔
      ∃ failure ∈ failures, ∃ fix ∈ failure.fixes, ∃ r ∈ fix.replacements,
        ∃ cause, r.validate source = .error cause) ∧
    (∀ error, repair file source failures = .error error ↔
      ∃ front r back cause, offered failures = front ++ r :: back ∧
        (∀ s ∈ front, s.validate source = .ok ()) ∧ r.validate source = .error cause ∧
        error = ⟨file, .edit cause⟩) ∧
    (∀ other first second,
      repair file source failures ≠ .error ⟨other, .overlap first second⟩) ∧
    (∀ outcome, repair file source failures = .ok outcome →
      ∃ done, InPlace.repair file source failures = .ok done) ∧
    (∀ failure first rest, failure.fixes = first :: rest →
      (InPlace.repair file source [failure]).map Repair.content =
        (first.apply source).mapError fun cause => ⟨file, cause⟩) ∧
    ∀ front failure back first rest outcome, failures = front ++ failure :: back →
      failure.fixes = first :: rest → repair file source failures = .ok outcome →
      ∃ before after alone others, repair file source front = .ok before ∧
        repair file source back = .ok after ∧
        InPlace.repair file source [failure] = .ok alone ∧
        first.apply source = .ok alone.content ∧
        outcome.message = before.message ++
          (heading file source failure ++ "Suggested fixes:\n" ++
            ("#1: " ++ first.label ++ "\n" ++ Diff.render source alone.content) ++ others) ++
          after.message := by
  refine ⟨?fails, fun _ => repair_eq_error_iff, ?overlap,
    fun _ hrepair => exists_inPlace_of_repair hrepair,
    fun _ _ _ hfixes => inPlace_singleton file source hfixes, ?shown⟩
  case fails =>
    -- The three nested loops go through one list, that of the offered replacements.
    rw [exists_repair_eq_error_iff]
    constructor
    · rintro ⟨r, hmem, hr⟩
      obtain ⟨failure, hfailure, fix, hfix, hmem⟩ := mem_offered_iff.mp hmem
      exact ⟨failure, hfailure, fix, hfix, r, hmem, hr⟩
    · rintro ⟨failure, hfailure, fix, hfix, r, hmem, hr⟩
      exact ⟨r, mem_offered_iff.mpr ⟨failure, hfailure, fix, hfix, hmem⟩, hr⟩
  case overlap =>
    intro other first second hrepair
    obtain ⟨_, _, _, _, _, _, _, hcause⟩ := repair_eq_error_iff.mp hrepair
    cases hcause
  case shown =>
    rintro front failure back first rest outcome rfl hfixes hrepair
    -- What is shown of this failure begins with the diff of its first fix, which succeeds alone.
    obtain ⟨before, shown, after, hbefore, hshown, hafter, hmessage⟩ :=
      repair_append front failure back hrepair
    obtain ⟨patched, others, happly, rfl⟩ := failureEntry_of_fixes hfixes hshown
    have halone := inPlace_singleton file source hfixes
    rw [happly, FirstError.mapError_ok] at halone
    -- A repair of the failure alone makes the same text or the same error.
    cases hmade : InPlace.repair file source [failure] with
    | error error =>
        rw [hmade] at halone
        cases halone
    | ok alone =>
        rw [hmade] at halone
        obtain rfl : alone.content = patched := Except.ok.inj halone
        exact ⟨before, after, alone, others, hbefore, hafter, rfl, happly, hmessage⟩

/-- A failure with two fixes, the second of which lies behind the end of a short text. -/
def alternative : Failure :=
  .clamped "a.ts" "const" 0 3 "Use const" .error
    [.single "const" ⟨0, 3, "const", 0⟩, .single "const" ⟨77, 1, "", 0⟩]

/-- The alternative spoils the preview; in place only the first fix counts. -/
theorem repair_covers_inPlace_alternative :
    repair "a.ts" "let x" [alternative] = .error ⟨"a.ts", .edit (.outOfBounds ⟨77, 78⟩ 5)⟩ ∧
      (InPlace.repair "a.ts" "let x" [alternative]).map Repair.content = .ok "const x" := by
  obtain ⟨-, hfails, -, -, halone, -⟩ := repair_covers_inPlace "a.ts" "let x" [alternative]
  refine ⟨?_, ?_⟩
  · refine (hfails _).mpr ⟨[⟨0, 3, "const", 0⟩], ⟨77, 1, "", 0⟩, [], _, rfl, ?_, rfl, rfl⟩
    intro s hs
    rw [List.mem_singleton.mp hs]
    rfl
  · have happly : (Fix.single "const" ⟨0, 3, "const", 0⟩).apply "let x" = .ok "const x" := by
      unfold Fix.apply Fix.single Patch.apply Patch.check
      rw [Patch.applicationOrder_singleton]
      decide
    rw [halone alternative _ _ rfl, happly]
    rfl

end LintRepair.Preview
