import LintRepair.Proofs.Patch.Check
import LintRepair.Proofs.Report.Drafts

/-!
# Which reports are accepted

A report of well-typed failures (`IsFailure`) is accepted if every failure in it is sound: its end
is not before its start, and no fix of it has overlapping replacements.  The failures that come out
then say what was written, with the rule of the failure for fixes that have none.

* `firstOverlap_eq_some_iff`: the pair of replacements that is named when a fix is refused stands at
  the lexicographically first positions with an overlap (`IsFirstOverlap`).
* `FailureDraft.toFailure_eq_ok_iff` and `FailureDraft.toFailure_eq_error_iff` say what becomes of
  one failure: it is given as written, or refused for its span, or else for its first bad fix.
* `parse_gives_or_refuses` puts the failures of a report one after the other, where the first one
  that is refused decides.
-/

namespace LintRepair

/-! ## The first overlap -/

/-- The replacements at two positions, the first before the second, overlap. -/
def OverlapAt (replacements : List Replacement) (i j : Nat) : Prop :=
  i < j ∧ ∃ a b, replacements[i]? = some a ∧ replacements[j]? = some b ∧ a.Overlaps b

/-- No overlap has an earlier first position, or the same one and an earlier second. -/
def IsFirstOverlap (replacements : List Replacement) (i j : Nat) : Prop :=
  OverlapAt replacements i j ∧
    ∀ k l, OverlapAt replacements k l → i < k ∨ i = k ∧ j ≤ l

theorem hasOverlap_iff_exists_overlapAt {replacements : List Replacement} :
    HasOverlap replacements ↔ ∃ i j, OverlapAt replacements i j := by
  constructor
  · rintro ⟨i, j, hne, a, b, ha, hb, hoverlaps⟩
    rcases Nat.lt_or_gt_of_ne hne with hlt | hgt
    · exact ⟨i, j, hlt, a, b, ha, hb, hoverlaps⟩
    · exact ⟨j, i, hgt, b, a, hb, ha, Replacement.overlaps_comm.mp hoverlaps⟩
  · rintro ⟨i, j, hlt, hoverlaps⟩
    exact ⟨i, j, Nat.ne_of_lt hlt, hoverlaps⟩

theorem IsFirstOverlap.unique {replacements : List Replacement} {i j k l : Nat}
    (h : IsFirstOverlap replacements i j) (h' : IsFirstOverlap replacements k l) :
    i = k ∧ j = l := by
  have hle := h.2 k l h'.1
  have hge := h'.2 i j h.1
  omega

theorem not_overlapAt_zero {replacements : List Replacement} {i : Nat} :
    ¬ OverlapAt replacements i 0 :=
  fun h => Nat.not_lt_zero i h.1

theorem overlapAt_cons_zero {r : Replacement} {rest : List Replacement} {j : Nat} :
    OverlapAt (r :: rest) 0 (j + 1) ↔ ∃ other, rest[j]? = some other ∧ r.Overlaps other := by
  simp [OverlapAt]

theorem overlapAt_cons_succ {r : Replacement} {rest : List Replacement} {i j : Nat} :
    OverlapAt (r :: rest) (i + 1) (j + 1) ↔ OverlapAt rest i j := by
  simp [OverlapAt]

/-- The pair that is found stands at the positions of the first overlap. -/
theorem exists_isFirstOverlap {replacements : List Replacement} {a b : Replacement}
    (hfound : firstOverlap replacements = some (a, b)) :
    ∃ i j, IsFirstOverlap replacements i j ∧ replacements[i]? = some a ∧
      replacements[j]? = some b := by
  induction replacements with
  | nil => cases hfound
  | cons r rest ih =>
    rw [firstOverlap] at hfound
    split at hfound
    next other hother =>
      -- The head has a partner, so the first overlap is at position zero.
      obtain ⟨rfl, rfl⟩ := Prod.mk.inj (Option.some.inj hfound)
      obtain ⟨hoverlaps, j, hj, rfl, hbefore⟩ := List.find?_eq_some_iff_getElem.mp hother
      have hat : rest[j]? = some rest[j] := List.getElem?_eq_getElem hj
      refine ⟨0, j + 1, ⟨?_, ?_⟩, rfl, hat⟩
      · exact overlapAt_cons_zero.mpr ⟨_, hat, of_decide_eq_true hoverlaps⟩
      · rintro (_ | k) (_ | l) hkl
        · exact absurd hkl not_overlapAt_zero
        · -- A partner before the one that is found would have been found instead.
          refine .inr ⟨rfl, Nat.le_of_not_lt fun hlt => ?_⟩
          obtain ⟨partner, hl, hpartner⟩ := overlapAt_cons_zero.mp hkl
          have hlj : l < j := Nat.lt_of_succ_lt_succ hlt
          obtain ⟨_, rfl⟩ := List.getElem?_eq_some_iff.mp hl
          simpa [hpartner] using hbefore l hlj
        · exact absurd hkl not_overlapAt_zero
        · exact .inl (Nat.zero_lt_succ k)
    next hnone =>
      -- The head has none, so every overlap lies in the rest.
      obtain ⟨i, j, ⟨hoverlap, hfirst⟩, ha, hb⟩ := ih hfound
      refine ⟨i + 1, j + 1, ⟨overlapAt_cons_succ.mpr hoverlap, ?_⟩, ha, hb⟩
      rintro (_ | k) (_ | l) hkl
      · exact absurd hkl not_overlapAt_zero
      · obtain ⟨partner, hl, hpartner⟩ := overlapAt_cons_zero.mp hkl
        exact absurd (decide_eq_true hpartner)
          (List.find?_eq_none.mp hnone partner (List.mem_of_getElem? hl))
      · exact absurd hkl not_overlapAt_zero
      · have := hfirst k l (overlapAt_cons_succ.mp hkl)
        omega

/-- What is found is the first overlap, and every overlap makes that something is found. -/
theorem firstOverlap_eq_some_iff {replacements : List Replacement} {a b : Replacement} :
    firstOverlap replacements = some (a, b) ↔
      ∃ i j, IsFirstOverlap replacements i j ∧ replacements[i]? = some a ∧
        replacements[j]? = some b := by
  refine ⟨exists_isFirstOverlap, ?_⟩
  rintro ⟨i, j, hfirst, ha, hb⟩
  cases hfound : firstOverlap replacements with
  | none =>
    have hnone := not_hasOverlap_iff.mpr (firstOverlap_eq_none_iff.mp hfound)
    exact absurd (hasOverlap_iff_exists_overlapAt.mpr ⟨i, j, hfirst.1⟩) hnone
  | some pair =>
    obtain ⟨k, l, hother, hk, hl⟩ := exists_isFirstOverlap hfound
    obtain ⟨rfl, rfl⟩ := hfirst.unique hother
    rw [Option.some.inj (ha.symm.trans hk), Option.some.inj (hb.symm.trans hl)]

namespace Fix

variable {rule description : String} {replacements : List Replacement}

theorem make_eq_ok_iff {fix : Fix} :
    make rule description replacements = .ok fix ↔
      ¬ HasOverlap replacements ∧ fix.rule = rule ∧ fix.description = description ∧
        fix.replacements = replacements := by
  rw [not_hasOverlap_iff, ← firstOverlap_eq_none_iff]
  unfold make
  split
  next first second hfound => simp [hfound]
  next hnone =>
    cases fix
    simp only [hnone, true_and, Except.ok.injEq, mk.injEq]
    exact ⟨fun ⟨h, h', h''⟩ => ⟨h.symm, h'.symm, h''.symm⟩,
      fun ⟨h, h', h''⟩ => ⟨h.symm, h'.symm, h''.symm⟩⟩

/-- A list of replacements is refused because of its first overlap. -/
theorem make_eq_error_iff_isFirstOverlap {error : FixError} :
    make rule description replacements = .error error ↔
      ∃ i j a b, IsFirstOverlap replacements i j ∧ replacements[i]? = some a ∧
        replacements[j]? = some b ∧ error = .overlap rule a.span b.span := by
  have hpair : make rule description replacements = .error error ↔
      ∃ a b, firstOverlap replacements = some (a, b) ∧ error = .overlap rule a.span b.span := by
    unfold make
    split
    next first second hfound =>
      simp only [hfound]
      constructor
      · intro h
        exact ⟨first, second, rfl, (Except.error.inj h).symm⟩
      · rintro ⟨a, b, hab, rfl⟩
        obtain ⟨rfl, rfl⟩ := Prod.mk.inj (Option.some.inj hab)
        rfl
    next hnone => simp [hnone]
  rw [hpair]
  simp only [firstOverlap_eq_some_iff]
  constructor
  · rintro ⟨a, b, ⟨i, j, hfirst, ha, hb⟩, herror⟩
    exact ⟨i, j, a, b, hfirst, ha, hb, herror⟩
  · rintro ⟨i, j, a, b, hfirst, ha, hb, herror⟩
    exact ⟨a, b, ⟨i, j, hfirst, ha, hb⟩, herror⟩

end Fix

namespace Report

open Json (Value)

/-! ## What a draft means -/

/-- The fix of a draft; `rule` is for drafts without a rule of their own. -/
structure FixDraft.Gives (rule : String) (draft : FixDraft) (fix : Fix) : Prop where
  rule : fix.rule = draft.rule.getD rule
  description : fix.description = draft.description
  replacements : fix.replacements = draft.replacements

/-- The failure of a draft. -/
structure FailureDraft.Gives (draft : FailureDraft) (failure : Failure) : Prop where
  file : failure.file = draft.file
  rule : failure.rule = draft.rule
  start : failure.start = draft.start
  stop : failure.stop = draft.stop
  ordered : failure.start ≤ failure.stop
  message : failure.message = draft.message
  severity : failure.severity = draft.severity
  fixes : List.Forall₂ (FixDraft.Gives draft.rule) draft.fixes failure.fixes

/-- A draft can be turned into a failure. -/
structure FailureDraft.IsSound (draft : FailureDraft) : Prop where
  ordered : ¬ draft.stop < draft.start
  disjoint : ∀ fix ∈ draft.fixes, ¬ HasOverlap fix.replacements

/-- Why a draft is refused: its span comes before its fixes, and these come in their order. -/
inductive FailureDraft.Refused (draft : FailureDraft) : ReadError → Prop where
  | inverted (hstop : draft.stop < draft.start) :
      Refused draft (.inverted draft.rule draft.start draft.stop)
  | overlap {front back : List FixDraft} {fix : FixDraft} {i j : Nat} {a b : Replacement}
      (hordered : ¬ draft.stop < draft.start) (hfixes : draft.fixes = front ++ fix :: back)
      (hfront : ∀ other ∈ front, ¬ HasOverlap other.replacements)
      (hfirst : IsFirstOverlap fix.replacements i j) (ha : fix.replacements[i]? = some a)
      (hb : fix.replacements[j]? = some b) :
      Refused draft (.fix (.overlap (fix.rule.getD draft.rule) a.span b.span))

theorem FixDraft.toFix_eq_ok_iff {draft : FixDraft} {rule : String} {fix : Fix} :
    draft.toFix rule = .ok fix ↔ ¬ HasOverlap draft.replacements ∧ draft.Gives rule fix := by
  unfold toFix
  rw [FirstError.mapError_eq_ok_iff, Fix.make_eq_ok_iff]
  refine and_congr_right fun _ => ?_
  constructor
  · rintro ⟨hrule, hdescription, hreplacements⟩
    exact ⟨hrule, hdescription, hreplacements⟩
  · rintro ⟨hrule, hdescription, hreplacements⟩
    exact ⟨hrule, hdescription, hreplacements⟩

theorem FixDraft.toFix_eq_error_iff {draft : FixDraft} {rule : String} {error : ReadError} :
    draft.toFix rule = .error error ↔
      ∃ i j a b, IsFirstOverlap draft.replacements i j ∧ draft.replacements[i]? = some a ∧
        draft.replacements[j]? = some b ∧
        error = .fix (.overlap (draft.rule.getD rule) a.span b.span) := by
  unfold toFix
  rw [FirstError.mapError_eq_error_iff]
  simp only [Fix.make_eq_error_iff_isFirstOverlap]
  constructor
  · rintro ⟨_, ⟨i, j, a, b, hfirst, ha, hb, rfl⟩, rfl⟩
    exact ⟨i, j, a, b, hfirst, ha, hb, rfl⟩
  · rintro ⟨i, j, a, b, hfirst, ha, hb, rfl⟩
    exact ⟨_, ⟨i, j, a, b, hfirst, ha, hb, rfl⟩, rfl⟩

theorem FixDraft.exists_toFix_eq_ok_iff {draft : FixDraft} {rule : String} :
    (∃ fix, draft.toFix rule = .ok fix) ↔ ¬ HasOverlap draft.replacements := by
  simp only [toFix_eq_ok_iff, exists_and_left]
  refine and_iff_left_of_imp fun hdisjoint => ?_
  exact ⟨⟨draft.rule.getD rule, draft.description, draft.replacements,
    not_hasOverlap_iff.mp hdisjoint⟩, rfl, rfl, rfl⟩

theorem FailureDraft.toFailure_eq_ok_iff {draft : FailureDraft} {failure : Failure} :
    draft.toFailure = .ok failure ↔ draft.IsSound ∧ draft.Gives failure := by
  unfold toFailure
  split
  next hordered =>
    -- The span is in order; what is left is that every fix can be made.
    rw [FirstError.bind_eq_ok_iff]
    simp only [FirstError.mapM_eq_ok_iff, FixDraft.toFix_eq_ok_iff, List.forall₂_and_left]
    constructor
    · rintro ⟨fixes, ⟨hdisjoint, hfixes⟩, hfailure⟩
      obtain rfl := Except.ok.inj hfailure
      exact ⟨⟨UInt64.not_lt.mpr hordered, hdisjoint⟩,
        ⟨rfl, rfl, rfl, rfl, hordered, rfl, rfl, hfixes⟩⟩
    · rintro ⟨⟨-, hdisjoint⟩, hgives⟩
      refine ⟨failure.fixes, ⟨hdisjoint, hgives.fixes⟩, ?_⟩
      cases failure
      obtain ⟨hfile, hrule, hstart, hstop, -, hmessage, hseverity, -⟩ := hgives
      dsimp only at hfile hrule hstart hstop hmessage hseverity
      subst hfile hrule hstart hstop hmessage hseverity
      rfl
  next hinverted =>
    simp only [reduceCtorEq, false_iff]
    rintro ⟨⟨hordered, -⟩, -⟩
    exact hinverted (UInt64.not_lt.mp hordered)

theorem FailureDraft.toFailure_eq_error_iff {draft : FailureDraft} {error : ReadError} :
    draft.toFailure = .error error ↔ draft.Refused error := by
  unfold toFailure
  split
  next hordered =>
    -- After the fixes nothing can fail, so the error is that of the first fix that cannot be made.
    have hbind : (draft.fixes.mapM (fun fix => fix.toFix draft.rule) >>= fun fixes =>
        pure (⟨draft.file, draft.rule, draft.start, draft.stop, draft.message, draft.severity,
          fixes, hordered⟩ : Failure)) = .error error ↔
        draft.fixes.mapM (fun fix => fix.toFix draft.rule) = .error error := by
      rw [← FirstError.verdict_eq_error_iff, FirstError.verdict_bind_pure,
        FirstError.verdict_eq_error_iff]
    rw [hbind, FirstError.mapM_eq_error_iff]
    simp only [FixDraft.exists_toFix_eq_ok_iff, FixDraft.toFix_eq_error_iff]
    constructor
    · rintro ⟨front, fix, back, hfixes, hfront, i, j, a, b, hfirst, ha, hb, rfl⟩
      exact .overlap (UInt64.not_lt.mpr hordered) hfixes hfront hfirst ha hb
    · rintro (hstop | ⟨-, hfixes, hfront, hfirst, ha, hb⟩)
      · exact absurd hstop (UInt64.not_lt.mpr hordered)
      · exact ⟨_, _, _, hfixes, hfront, _, _, _, _, hfirst, ha, hb, rfl⟩
  next hinverted =>
    -- A span that is not in order is refused before any fix is looked at.
    rw [Except.error.injEq]
    constructor
    · rintro rfl
      exact .inverted (UInt64.not_le.mp hinverted)
    · rintro (_ | ⟨hordered, -⟩)
      · rfl
      · exact absurd (UInt64.not_lt.mp hordered) hinverted

theorem FailureDraft.Refused.not_isSound {draft : FailureDraft} {error : ReadError}
    (h : draft.Refused error) : ¬ draft.IsSound := by
  intro hsound
  cases h with
  | inverted hstop => exact hsound.ordered hstop
  | @overlap front back fix i j a b _ hfixes _ hfirst _ _ =>
    have hmem : fix ∈ draft.fixes := hfixes ▸ List.mem_append_right _ List.mem_cons_self
    exact hsound.disjoint fix hmem (hasOverlap_iff_exists_overlapAt.mpr ⟨i, j, hfirst.1⟩)

theorem FailureDraft.exists_toFailure_eq_ok_iff {draft : FailureDraft} :
    (∃ failure, draft.toFailure = .ok failure) ↔ draft.IsSound := by
  constructor
  · rintro ⟨failure, hok⟩
    exact (toFailure_eq_ok_iff.mp hok).1
  · intro hsound
    cases hrun : draft.toFailure with
    | ok failure => exact ⟨failure, rfl⟩
    | error error => exact absurd hsound (toFailure_eq_error_iff.mp hrun).not_isSound

/-! ## Reports -/

variable {text : String} {items : List Value} {drafts : List FailureDraft}

/-- Failures of the right shape are turned into failures one after the other. -/
theorem parse_eq_mapM (htext : Json.Document.ofText text = ⟨.list items, false⟩)
    (htyped : List.Forall₂ IsFailure items drafts) :
    parse text = drafts.mapM FailureDraft.toFailure := by
  have hread : items.mapM readFailure = drafts.mapM FailureDraft.toFailure := by
    refine FirstError.mapM_congr (htyped.imp fun value draft hvalue => ?_)
    unfold readFailure
    rw [readFailureDraft_eq_ok_iff.mpr hvalue, FirstError.bind_ok]
  unfold parse ofText
  simp only [htext, readList, Value.list, hread]
  cases drafts.mapM FailureDraft.toFailure <;> rfl

/-- A report of well-typed failures is accepted exactly if all of them are sound; it then gives what
is written, failure by failure, and otherwise the refusal of the first failure that is not sound. -/
theorem parse_gives_or_refuses (htext : Json.Document.ofText text = ⟨.list items, false⟩)
    (htyped : List.Forall₂ IsFailure items drafts) :
    ((∃ failures, parse text = .ok failures) ↔ ∀ draft ∈ drafts, draft.IsSound) ∧
    (∀ failures, parse text = .ok failures → List.Forall₂ FailureDraft.Gives drafts failures) ∧
    (∀ error, parse text = .error error ↔
      ∃ front draft back, drafts = front ++ draft :: back ∧
        (∀ other ∈ front, other.IsSound) ∧ draft.Refused error) := by
  rw [parse_eq_mapM htext htyped]
  refine ⟨?_, fun failures hok => ?_, fun error => ?_⟩
  · rw [← FirstError.verdict_eq_ok_iff, FirstError.verdict_mapM, FirstError.forM_eq_ok_iff]
    simp only [FirstError.verdict_eq_ok_iff, FailureDraft.exists_toFailure_eq_ok_iff]
  · refine (FirstError.mapM_eq_ok_iff.mp hok).imp fun draft failure h => ?_
    exact (FailureDraft.toFailure_eq_ok_iff.mp h).2
  · rw [FirstError.mapM_eq_error_iff]
    simp only [FailureDraft.exists_toFailure_eq_ok_iff, FailureDraft.toFailure_eq_error_iff]

/-- A failure with its fields in no order, one that is unknown, and a fix whose rule is `null`. -/
def scattered : Value :=
  .record [("note", .list [.natural 1]), ("end", .natural 5), ("start", .natural 2),
    ("fixes", .list [.record [
      ("replacements", .list [.list [.natural 2, .natural 3, .text "x"]]), ("rule", .null)]]),
    ("rule", .text "tabs"), ("file", .text "a.md")]

def scatteredDraft : FailureDraft :=
  { file := "a.md", rule := "tabs", start := 2, stop := 5,
    fixes := [{ replacements := [⟨2, 3, "x", 0⟩] }] }

/-- A failure as an array, with a fix whose first and last replacements overlap. -/
def listed : Value :=
  .list [.text "b.md", .text "quotes", .natural 0, .natural 4, .text "", .text "info",
    .list [.list [.null, .text "", .list [.list [.natural 0, .natural 4, .text ""],
      .list [.natural 4, .natural 1, .text ""], .list [.natural 2, .natural 1, .text ""]]]]]

def listedDraft : FailureDraft :=
  { file := "b.md", rule := "quotes", start := 0, stop := 4, severity := .info,
    fixes := [{ replacements := [⟨0, 4, "", 0⟩, ⟨4, 1, "", 0⟩, ⟨2, 1, "", 0⟩] }] }

theorem parse_gives_or_refuses_second_overlaps :
    Json.Document.ofText (Value.list [scattered, listed]).compact =
        ⟨.list [scattered, listed], false⟩ ∧
      List.Forall₂ IsFailure [scattered, listed] [scatteredDraft, listedDraft] ∧
      parse (Value.list [scattered, listed]).compact =
        .error (.fix (.overlap "quotes" ⟨0, 4⟩ ⟨2, 3⟩)) := by
  have hwhole : (Value.list [scattered, listed]).IsWhole := by
    simp [scattered, listed, Value.isWhole_list, Value.isWhole_record, Value.IsWhole,
      Value.natural, Json.Number.IsInteger, UInt64.size]
  have htext := Json.ofText_compact hwhole
  have htyped : List.Forall₂ IsFailure [scattered, listed] [scatteredDraft, listedDraft] :=
    .cons (readFailureDraft_eq_ok_iff.mp (by decide +kernel))
      (.cons (readFailureDraft_eq_ok_iff.mp (by decide +kernel)) .nil)
  have hsound : scatteredDraft.IsSound := by
    refine ⟨by decide, ?_⟩
    simp only [not_hasOverlap_iff]
    decide
  refine ⟨htext, htyped, ((parse_gives_or_refuses htext htyped).2.2 _).mpr ?_⟩
  have hfixes : listedDraft.fixes =
      [] ++ { replacements := [⟨0, 4, "", 0⟩, ⟨4, 1, "", 0⟩, ⟨2, 1, "", 0⟩] } :: [] := rfl
  obtain ⟨i, j, hfirst, ha, hb⟩ := firstOverlap_eq_some_iff.mp
    (by decide : firstOverlap [⟨0, 4, "", 0⟩, ⟨4, 1, "", 0⟩, ⟨2, 1, "", 0⟩] =
      some (⟨0, 4, "", 0⟩, ⟨2, 1, "", 0⟩))
  have hrefused := FailureDraft.Refused.overlap (by decide) hfixes (by simp) hfirst ha hb
  exact ⟨[scatteredDraft], listedDraft, [], rfl, by simpa using hsound, hrefused⟩

end Report

end LintRepair
