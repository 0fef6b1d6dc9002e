import LintRepair.Patch

/-!
# The order of application

A patch sorts its replacements by end, start, priority and position, each descending, and then looks
only at neighbours.  This file shows why neighbours are enough.

* `Precedes` is a linear order on the entries of a list (`precedes_trans`, `precedes_total`,
  `eq_of_precedes`), so the sorted list is determined by it.
* Of two entries in that order, overlapping is a one-sided test: the later one reaches past the
  start of the earlier one (`not_overlaps_iff_of_precedes`).  At equal ends the start decides.
* `firstCrossing_eq_none_iff` carries the test from neighbours to all pairs, because a replacement
  never ends before it starts.

Together they give `firstCrossing_applicationOrder_eq_none_iff`: the patch finds nothing exactly
when no two replacements overlap.
-/

namespace LintRepair

namespace Replacement

theorem start_le_stop (r : Replacement) : r.start.toNat ≤ r.stop := by
  have hword : r.start.toNat < 2 ^ 64 := r.start.toNat_lt
  unfold stop maxOffset
  omega

/-- Whether replacements are disjoint is not a matter of their order. -/
theorem pairwise_not_overlaps_iff {first second : List Replacement} (hperm : first.Perm second) :
    (first.Pairwise fun a b => ¬ a.Overlaps b) ↔ second.Pairwise fun a b => ¬ a.Overlaps b :=
  hperm.pairwise_iff fun hnot => mt overlaps_comm.mp hnot

/-- `a` ends where `b` starts, or before. -/
def Before (a b : Replacement) : Prop :=
  a.stop ≤ b.start.toNat

theorem Before.trans {a b c : Replacement} (hab : a.Before b) (hbc : b.Before c) : a.Before c :=
  Nat.le_trans hab (Nat.le_trans b.start_le_stop hbc)

end Replacement

namespace Patch

variable {replacements : List Replacement} {a b c : Entry}

/-! ## The order of two entries -/

theorem precedes_trans (hab : Precedes a b) (hbc : Precedes b c) : Precedes a c := by
  unfold Precedes at *
  omega

theorem precedes_total (a b : Entry) : Precedes a b ∨ Precedes b a := by
  unfold Precedes
  omega

theorem position_eq_of_precedes (hab : Precedes a b) (hba : Precedes b a) : a.2 = b.2 := by
  unfold Precedes at *
  omega

/-- Two entries in the order of application overlap unless the later one ends before the earlier one
starts. -/
theorem not_overlaps_iff_of_precedes (hab : Precedes a b) :
    ¬ a.1.Overlaps b.1 ↔ b.1.Before a.1 := by
  have hb := b.1.start_le_stop
  unfold Precedes at hab
  unfold Replacement.Overlaps Replacement.Before
  omega

/-! ## The sorted entries -/

/-- Sorting by a total and transitive relation puts every entry in relation to all that follow. -/
theorem pairwise_sort (le : Entry → Entry → Prop) [DecidableRel le]
    (htrans : ∀ {a b c}, le a b → le b c → le a c) (htotal : ∀ a b, le a b ∨ le b a)
    (entries : List Entry) : (entries.mergeSort fun a b => decide (le a b)).Pairwise le := by
  have hsorted : (entries.mergeSort fun a b => decide (le a b)).Pairwise
      fun a b => decide (le a b) = true := by
    apply List.pairwise_mergeSort
    · intro a b c hab hbc
      simp only [decide_eq_true_eq] at *
      exact htrans hab hbc
    · intro a b
      simpa using htotal a b
  exact hsorted.imp of_decide_eq_true

/-- The entries of a list in the order in which they are carried out. -/
def applicationEntries (replacements : List Replacement) : List Entry :=
  replacements.zipIdx.mergeSort fun a b => decide (Precedes a b)

theorem applicationOrder_eq_map (replacements : List Replacement) :
    applicationOrder replacements = (applicationEntries replacements).map Prod.fst := rfl

theorem applicationEntries_perm (replacements : List Replacement) :
    (applicationEntries replacements).Perm replacements.zipIdx :=
  List.mergeSort_perm ..

theorem mem_zipIdx_of_mem_applicationEntries (ha : a ∈ applicationEntries replacements) :
    a ∈ replacements.zipIdx :=
  (applicationEntries_perm replacements).mem_iff.mp ha

theorem applicationEntries_pairwise (replacements : List Replacement) :
    (applicationEntries replacements).Pairwise Precedes :=
  pairwise_sort Precedes precedes_trans precedes_total _

theorem applicationOrder_singleton (r : Replacement) : applicationOrder [r] = [r] := by
  unfold applicationOrder
  rw [List.zipIdx_singleton, List.mergeSort_singleton]
  rfl

theorem applicationOrder_perm (replacements : List Replacement) :
    (applicationOrder replacements).Perm replacements := by
  have hperm := (applicationEntries_perm replacements).map Prod.fst
  rwa [List.zipIdx_map_fst] at hperm

theorem eq_of_position_eq (ha : a ∈ replacements.zipIdx) (hb : b ∈ replacements.zipIdx)
    (hposition : a.2 = b.2) : a = b := by
  rw [List.mem_zipIdx_iff_getElem?] at ha hb
  rw [hposition, hb, Option.some.injEq] at ha
  exact Prod.ext ha.symm hposition

/-- The order of application decides between any two entries of one list. -/
theorem eq_of_precedes (ha : a ∈ replacements.zipIdx) (hb : b ∈ replacements.zipIdx)
    (hab : Precedes a b) (hba : Precedes b a) : a = b :=
  eq_of_position_eq ha hb (position_eq_of_precedes hab hba)

/-- The order of application leaves no choice between entries of one list. -/
theorem applicationEntries_eq_of_pairwise (entries : List Entry)
    (hsorted : entries.Pairwise Precedes) (hperm : entries.Perm replacements.zipIdx) :
    applicationEntries replacements = entries := by
  refine List.Perm.eq_of_pairwise ?_ (applicationEntries_pairwise replacements) hsorted
    ((applicationEntries_perm replacements).trans hperm.symm)
  intro a b ha hb hab hba
  exact eq_of_precedes (mem_zipIdx_of_mem_applicationEntries ha) (hperm.mem_iff.mp hb) hab hba

theorem applicationEntries_positions (replacements : List Replacement) :
    (applicationEntries replacements).Pairwise fun a b => a.2 ≠ b.2 := by
  have hpositions : (replacements.zipIdx.map Prod.snd).Pairwise (· ≠ ·) := by
    rw [List.zipIdx_map_snd]
    exact List.nodup_range'
  rw [List.pairwise_map] at hpositions
  exact (applicationEntries_perm replacements).symm.pairwise hpositions Ne.symm

/-! ## Neighbours -/

/-- When no neighbours cross, every replacement stands before all that are carried out earlier. -/
theorem firstCrossing_eq_none_iff {order : List Replacement} :
    firstCrossing order = none ↔
      order.Pairwise fun earlier later => later.Before earlier := by
  induction order with
  | nil => simp [firstCrossing]
  | cons earlier rest ih =>
      cases rest with
      | nil => simp [firstCrossing]
      | cons later rest =>
          rw [firstCrossing, List.pairwise_cons]
          split
          next hcrossing =>
            simp only [reduceCtorEq, false_iff, not_and]
            intro hall
            exact absurd (hall later List.mem_cons_self) (Nat.not_le.mpr hcrossing)
          next hbefore =>
            rw [ih]
            refine ⟨fun hrest => ⟨?_, hrest⟩, And.right⟩
            -- What comes behind `later` ends before it starts, hence before `earlier` starts.
            have hlater : later.Before earlier := Nat.not_lt.mp hbefore
            intro other hother
            rcases List.mem_cons.mp hother with rfl | hother
            · exact hlater
            · exact (List.rel_of_pairwise_cons hrest hother).trans hlater

theorem exists_of_firstCrossing_eq_some {order : List Replacement} {earlier later : Replacement}
    (h : firstCrossing order = some (later, earlier)) :
    ¬ later.Before earlier ∧ ∃ front back, order = front ++ earlier :: later :: back := by
  induction order with
  | nil => simp [firstCrossing] at h
  | cons first rest ih =>
      cases rest with
      | nil => simp [firstCrossing] at h
      | cons second rest =>
          rw [firstCrossing] at h
          split at h
          next hcrossing =>
            cases h
            exact ⟨Nat.not_le.mpr hcrossing, [], rest, rfl⟩
          next =>
            obtain ⟨hcrossing, front, back, horder⟩ := ih h
            exact ⟨hcrossing, first :: front, back, by rw [horder]; rfl⟩

/-! ## What the patch finds -/

/-- Sorted entries stand one before the other exactly when no two of them overlap. -/
theorem pairwise_before_iff (replacements : List Replacement) :
    ((applicationOrder replacements).Pairwise fun earlier later => later.Before earlier) ↔
      replacements.Pairwise fun a b => ¬ a.Overlaps b := by
  rw [← Replacement.pairwise_not_overlaps_iff (applicationOrder_perm replacements),
    applicationOrder_eq_map, List.pairwise_map, List.pairwise_map]
  have hsorted := applicationEntries_pairwise replacements
  constructor
  · intro hbefore
    exact hsorted.imp₂ (fun _ _ hab => (not_overlaps_iff_of_precedes hab).mpr) hbefore
  · intro hdisjoint
    exact hsorted.imp₂ (fun _ _ hab => (not_overlaps_iff_of_precedes hab).mp) hdisjoint

theorem firstCrossing_applicationOrder_eq_none_iff :
    firstCrossing (applicationOrder replacements) = none ↔
      replacements.Pairwise fun a b => ¬ a.Overlaps b := by
  rw [firstCrossing_eq_none_iff, pairwise_before_iff]

/-- What the patch finds are two overlapping replacements at different positions. -/
theorem overlaps_of_firstCrossing_eq_some {first second : Replacement}
    (h : firstCrossing (applicationOrder replacements) = some (first, second)) :
    ∃ i j : Nat, i ≠ j ∧ replacements[i]? = some first ∧ replacements[j]? = some second ∧
      first.Overlaps second := by
  obtain ⟨hcrossing, front, back, horder⟩ := exists_of_firstCrossing_eq_some h
  -- Back from replacements to entries: the two neighbours are entries at different positions.
  rw [applicationOrder_eq_map, List.map_eq_append_iff] at horder
  obtain ⟨_, tail, hentries, _, htail⟩ := horder
  obtain ⟨earlier, rest, rfl, rfl, hrest⟩ := List.map_eq_cons_iff.mp htail
  obtain ⟨later, others, rfl, rfl, _⟩ := List.map_eq_cons_iff.mp hrest
  have hpair : [earlier, later].Sublist (applicationEntries replacements) := by
    rw [hentries]
    exact (((List.nil_sublist others).cons_cons later).cons_cons earlier).trans
      (List.sublist_append_right ..)
  have hprecedes := (applicationEntries_pairwise replacements).sublist hpair
  have hpositions := (applicationEntries_positions replacements).sublist hpair
  rw [List.pairwise_pair] at hprecedes hpositions
  have hmem : ∀ entry ∈ [earlier, later], replacements[entry.2]? = some entry.1 :=
    fun entry hentry => List.mem_zipIdx_iff_getElem?.mp
      (mem_zipIdx_of_mem_applicationEntries (hpair.subset hentry))
  have hoverlaps : earlier.1.Overlaps later.1 :=
    Decidable.not_not.mp (mt (not_overlaps_iff_of_precedes hprecedes).mp hcrossing)
  exact ⟨later.2, earlier.2, hpositions.symm, hmem later (by simp), hmem earlier (by simp),
    Replacement.overlaps_comm.mp hoverlaps⟩

end Patch

end LintRepair
