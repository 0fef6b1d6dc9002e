import Mathlib.Tactic.Common
import LintRepair.Proofs.FirstError
import LintRepair.Proofs.Patch.Order

/-!
# What a patch checks

Three places decide whether replacements get in each other's way: a fix looks at all pairs of its
own replacements, two fixes conflict when a replacement of the one overlaps a replacement of the
other, and a patch compares neighbours after sorting.  `HasOverlap` is what all three ask for.

* `validate_eq_ok_iff` says when a replacement fits a text, and `check_eq_ok_iff` when a patch is
  carried out: all replacements fit, and no two of them overlap.
* `check_eq_edit` and `check_eq_overlap_iff` say which refusal comes otherwise.
* `overlap_deciders_agree` puts the three deciders side by side.
-/

namespace LintRepair

/-- Two replacements at different positions overlap. -/
def HasOverlap (replacements : List Replacement) : Prop :=
  ∃ i j : Nat, i ≠ j ∧ ∃ a b, replacements[i]? = some a ∧ replacements[j]? = some b ∧ a.Overlaps b

theorem not_hasOverlap_iff {replacements : List Replacement} :
    ¬ HasOverlap replacements ↔ replacements.Pairwise fun a b => ¬ a.Overlaps b := by
  rw [List.pairwise_iff_getElem]
  constructor
  · intro hnone i j hi hj hlt hoverlaps
    exact hnone ⟨i, j, Nat.ne_of_lt hlt, _, _, List.getElem?_eq_getElem hi,
      List.getElem?_eq_getElem hj, hoverlaps⟩
  · rintro hpairs ⟨i, j, hne, a, b, ha, hb, hoverlaps⟩
    obtain ⟨hi, rfl⟩ := List.getElem?_eq_some_iff.mp ha
    obtain ⟨hj, rfl⟩ := List.getElem?_eq_some_iff.mp hb
    rcases Nat.lt_or_gt_of_ne hne with hlt | hgt
    · exact hpairs i j hi hj hlt hoverlaps
    · exact hpairs j i hj hi hgt (Replacement.overlaps_comm.mp hoverlaps)

/-! ## Fixes -/

namespace Fix

theorem make_eq_error_iff {rule description : String} {replacements : List Replacement} :
    (∃ first second, make rule description replacements = .error (.overlap rule first second)) ↔
      HasOverlap replacements := by
  have hnone : firstOverlap replacements = none ↔ ¬ HasOverlap replacements := by
    rw [firstOverlap_eq_none_iff, not_hasOverlap_iff]
  unfold make
  split
  next first second hfound =>
    have hsome : firstOverlap replacements ≠ none := by
      rw [hfound]
      exact Option.some_ne_none _
    exact ⟨fun _ => by_contra fun h => hsome (hnone.mpr h), fun _ => ⟨_, _, rfl⟩⟩
  next hfound =>
    constructor
    · rintro ⟨_, _, herror⟩
      cases herror
    · intro h
      exact absurd h (hnone.mp hfound)

/-- Two fixes conflict exactly when their replacements, taken together, make no fix. -/
theorem conflicts_iff_hasOverlap (a b : Fix) :
    a.Conflicts b ↔ HasOverlap (a.replacements ++ b.replacements) := by
  rw [← not_iff_not, not_hasOverlap_iff, List.pairwise_append]
  unfold Conflicts
  constructor
  · intro hnone
    refine ⟨a.disjoint, b.disjoint, fun r hr s hs hoverlaps => ?_⟩
    exact hnone ⟨r, hr, s, hs, hoverlaps⟩
  · rintro ⟨_, _, hacross⟩ ⟨r, hr, s, hs, hoverlaps⟩
    exact hacross r hr s hs hoverlaps

end Fix

/-! ## Replacements that fit -/

namespace Replacement

variable {r : Replacement} {source : String}

/-- A replacement fits a text when its end is a word, lies within the text, and both its ends are
character boundaries. -/
theorem validate_eq_ok_iff :
    r.validate source = .ok () ↔
      r.start.toNat + r.length.toNat ≤ maxOffset ∧
      r.start.toNat + r.length.toNat ≤ source.utf8ByteSize ∧
      Text.IsBoundary source.toList r.start.toNat ∧
      Text.IsBoundary source.toList (r.start.toNat + r.length.toNat) := by
  unfold validate
  simp only [← Nat.not_lt]
  split_ifs <;> simp_all

/-- The end of a replacement that fits is what it says. -/
theorem stop_eq_of_validate (hvalid : r.validate source = .ok ()) :
    r.stop = r.start.toNat + r.length.toNat := by
  have hword := (validate_eq_ok_iff.mp hvalid).1
  unfold stop
  omega

end Replacement

/-! ## Patches -/

namespace Patch

variable {source : String} {replacements : List Replacement}

/-- Whether the replacements fit a text, one after the other. -/
theorem forM_validate_eq_ok_iff :
    (replacements.forM fun r => (r.validate source).mapError PatchError.edit) = .ok () ↔
      ∀ r ∈ replacements, r.validate source = .ok () := by
  rw [FirstError.forM_eq_ok_iff]
  exact forall₂_congr fun r _ => FirstError.mapError_eq_ok_iff

theorem forM_validate_eq_error_iff {cause : PatchError} :
    (replacements.forM fun r => (r.validate source).mapError PatchError.edit) = .error cause ↔
      ∃ front r back error, replacements = front ++ r :: back ∧
        (∀ s ∈ front, s.validate source = .ok ()) ∧ r.validate source = .error error ∧
        .edit error = cause := by
  rw [FirstError.forM_eq_error_iff]
  simp only [FirstError.mapError_eq_ok_iff, FirstError.mapError_eq_error_iff]
  constructor
  · rintro ⟨front, r, back, hsplit, hfront, error, hr, hcause⟩
    exact ⟨front, r, back, error, hsplit, hfront, hr, hcause⟩
  · rintro ⟨front, r, back, error, hsplit, hfront, hr, hcause⟩
    exact ⟨front, r, back, hsplit, hfront, error, hr, hcause⟩

theorem check_of_validate (hvalid : ∀ r ∈ replacements, r.validate source = .ok ()) :
    check source replacements =
      match firstCrossing (applicationOrder replacements) with
      | some (first, second) => .error (.overlap first.span second.span)
      | none => .ok () := by
  unfold check
  rw [forM_validate_eq_ok_iff.mpr hvalid, FirstError.bind_ok]
  rfl

/-- The first replacement that does not fit refuses the patch. -/
theorem check_eq_edit {front back : List Replacement} {r : Replacement} {error : EditError}
    (hreplacements : replacements = front ++ r :: back)
    (hfront : ∀ s ∈ front, s.validate source = .ok ()) (hr : r.validate source = .error error) :
    check source replacements = .error (.edit error) := by
  unfold check
  rw [forM_validate_eq_error_iff.mpr ⟨front, r, back, error, hreplacements, hfront, hr, rfl⟩,
    FirstError.bind_error]

/-- A list either fits a text as a whole or has a first replacement that does not. -/
theorem forall_validate_or_exists_first (source : String) (replacements : List Replacement) :
    (∀ r ∈ replacements, r.validate source = .ok ()) ∨
      ∃ front r back error, replacements = front ++ r :: back ∧
        (∀ s ∈ front, s.validate source = .ok ()) ∧ r.validate source = .error error := by
  cases hrun : replacements.forM fun r => r.validate source with
  | ok value => exact Or.inl (FirstError.forM_eq_ok_iff.mp hrun)
  | error error =>
      obtain ⟨front, r, back, h⟩ := FirstError.forM_eq_error_iff.mp hrun
      exact Or.inr ⟨front, r, back, error, h⟩

/-- Without overlaps there is nothing to check but the replacements one by one. -/
theorem check_of_disjoint (source : String)
    (hdisjoint : replacements.Pairwise fun a b => ¬ a.Overlaps b) :
    check source replacements =
      replacements.forM fun r => (r.validate source).mapError PatchError.edit := by
  unfold check
  rw [firstCrossing_applicationOrder_eq_none_iff.mpr hdisjoint]
  cases replacements.forM fun r => (r.validate source).mapError PatchError.edit <;> rfl

theorem check_eq_ok_iff :
    check source replacements = .ok () ↔
      (∀ r ∈ replacements, r.validate source = .ok ()) ∧
        replacements.Pairwise fun a b => ¬ a.Overlaps b := by
  rcases forall_validate_or_exists_first source replacements with
    hvalid | ⟨front, r, back, error, hsplit, hfront, hr⟩
  · rw [check_of_validate hvalid, ← firstCrossing_applicationOrder_eq_none_iff]
    cases hcrossing : firstCrossing (applicationOrder replacements) with
    | none => simpa using hvalid
    | some pair => simp
  · rw [check_eq_edit hsplit hfront hr]
    simp only [reduceCtorEq, false_iff, not_and]
    intro hvalid
    have hmem : r ∈ replacements := by
      rw [hsplit]
      simp
    rw [hvalid r hmem] at hr
    cases hr

theorem check_eq_overlap_iff (hvalid : ∀ r ∈ replacements, r.validate source = .ok ()) :
    (∃ first second, check source replacements = .error (.overlap first second)) ↔
      HasOverlap replacements := by
  have hnone : firstCrossing (applicationOrder replacements) = none ↔
      ¬ HasOverlap replacements := by
    rw [firstCrossing_applicationOrder_eq_none_iff, not_hasOverlap_iff]
  rw [check_of_validate hvalid, ← not_iff_not, ← hnone]
  cases firstCrossing (applicationOrder replacements) with
  | none => simp
  | some pair => simp

theorem exists_of_check_eq_overlap {first second : Span}
    (h : check source replacements = .error (.overlap first second)) :
    ∃ i j : Nat, i ≠ j ∧ ∃ a b, replacements[i]? = some a ∧ replacements[j]? = some b ∧
      a.span = first ∧ b.span = second ∧ a.Overlaps b := by
  rcases forall_validate_or_exists_first source replacements with
    hvalid | ⟨front, r, back, error, hsplit, hfront, hr⟩
  · rw [check_of_validate hvalid] at h
    cases hcrossing : firstCrossing (applicationOrder replacements) with
    | none => simp [hcrossing] at h
    | some pair =>
        obtain ⟨a, b⟩ := pair
        rw [hcrossing, Except.error.injEq, PatchError.overlap.injEq] at h
        obtain ⟨i, j, hne, ha, hb, hoverlaps⟩ := overlaps_of_firstCrossing_eq_some hcrossing
        exact ⟨i, j, hne, a, b, ha, hb, h.1, h.2, hoverlaps⟩
  · rw [check_eq_edit hsplit hfront hr] at h
    cases h

/-! ## From the check to the patch -/

theorem apply_eq_error_iff {error : PatchError} :
    apply source replacements = .error error ↔ check source replacements = .error error := by
  unfold apply
  cases check source replacements with
  | ok value => simp [Functor.map, Except.map]
  | error cause => simp [Functor.map, Except.map]

/-- A patch is refused by its check or not at all. -/
theorem verdict_apply (source : String) (replacements : List Replacement) :
    FirstError.verdict (apply source replacements) = check source replacements := by
  unfold apply
  rw [FirstError.verdict_bind_pure, FirstError.verdict_unit]

theorem apply_of_check (hcheck : check source replacements = .ok ()) :
    apply source replacements =
      .ok (String.ofList (spliceAll (applicationOrder replacements) source.toList)) := by
  unfold apply
  rw [hcheck]
  rfl

theorem check_of_apply {content : String} (happly : apply source replacements = .ok content) :
    check source replacements = .ok () := by
  cases hcheck : check source replacements with
  | ok value => rfl
  | error error =>
      rw [apply_eq_error_iff.mpr hcheck] at happly
      cases happly

theorem validate_of_apply {content : String} (happly : apply source replacements = .ok content) :
    ∀ r ∈ replacements, r.validate source = .ok () :=
  (check_eq_ok_iff.mp (check_of_apply happly)).1

/-- Replacements some of which overlap are refused by every text. -/
theorem exists_apply_eq_error (source : String) (hoverlap : HasOverlap replacements) :
    ∃ error, apply source replacements = .error error := by
  cases hcheck : check source replacements with
  | ok value => exact absurd hoverlap (not_hasOverlap_iff.mpr (check_eq_ok_iff.mp hcheck).2)
  | error error => exact ⟨error, apply_eq_error_iff.mpr hcheck⟩

/-! ## The three deciders -/

/-- Whether replacements that fit get in each other's way is decided alike by a patch, by a fix,
and, for the replacements of two fixes, by the conflict between them; and a patch that is refused
names two replacements that do overlap. -/
theorem overlap_deciders_agree (hvalid : ∀ r ∈ replacements, r.validate source = .ok ()) :
    ((∃ first second, apply source replacements = .error (.overlap first second)) ↔
      HasOverlap replacements) ∧
    (∀ rule description, HasOverlap replacements ↔
      ∃ first second,
        Fix.make rule description replacements = .error (.overlap rule first second)) ∧
    (∀ first second, apply source replacements = .error (.overlap first second) →
      ∃ i j : Nat, i ≠ j ∧ ∃ a b, replacements[i]? = some a ∧ replacements[j]? = some b ∧
        a.span = first ∧ b.span = second ∧ a.Overlaps b) ∧
    (∀ a b : Fix, replacements = a.replacements ++ b.replacements →
      (HasOverlap replacements ↔ a.Conflicts b) ∧ (a.Conflicts b ↔ b.Conflicts a) ∧
      ((∃ first second, apply source (b.replacements ++ a.replacements) =
        .error (.overlap first second)) ↔ b.Conflicts a)) := by
  refine ⟨?_, ?_, ?_, ?_⟩
  · simp only [apply_eq_error_iff]
    exact check_eq_overlap_iff hvalid
  · intro rule description
    exact Fix.make_eq_error_iff.symm
  · intro first second h
    exact exists_of_check_eq_overlap (apply_eq_error_iff.mp h)
  · rintro a b rfl
    refine ⟨(Fix.conflicts_iff_hasOverlap a b).symm, Fix.conflicts_comm, ?_⟩
    -- The other order has the same members, so they fit as well.
    have hswapped : ∀ r ∈ b.replacements ++ a.replacements, r.validate source = .ok () :=
      fun r hr => hvalid r (List.perm_append_comm.mem_iff.mp hr)
    simp only [apply_eq_error_iff]
    rw [check_eq_overlap_iff hswapped, Fix.conflicts_iff_hasOverlap]

/-- Two ranges that share their end, the inner one of higher priority. -/
theorem overlap_deciders_agree_shared_end :
    (∀ r ∈ [⟨0, 6, "x", 0⟩, ⟨1, 5, "", 7⟩], Replacement.validate r "né…" = .ok ()) ∧
      ∃ first second, apply "né…" [⟨0, 6, "x", 0⟩, ⟨1, 5, "", 7⟩] =
        .error (.overlap first second) := by
  have hvalid : ∀ r ∈ [⟨0, 6, "x", 0⟩, ⟨1, 5, "", 7⟩],
      Replacement.validate r "né…" = .ok () := by
    simp only [List.forall_mem_cons]
    exact ⟨rfl, rfl, by simp⟩
  have hagree := overlap_deciders_agree hvalid
  have hconflict : (Fix.single "a" ⟨0, 6, "x", 0⟩).Conflicts (Fix.single "b" ⟨1, 5, "", 7⟩) := by
    decide
  exact ⟨hvalid, hagree.1.mpr ((hagree.2.2.2 _ _ rfl).1.mpr hconflict)⟩

end Patch

end LintRepair
