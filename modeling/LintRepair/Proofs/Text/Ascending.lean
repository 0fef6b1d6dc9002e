import Mathlib.Data.List.Nodup
import Mathlib.Data.List.Pairwise
import Mathlib.Tactic.Common

/-!
# Texts in ascending order

Sorting texts of which each is there once gives a strictly ascending list (`isAscending_mergeSort`).
Such a list is known by what is in it (`IsAscending.eq_of_mem_iff`), so that the order in which the
texts came leaves no trace.
-/

namespace LintRepair.Text

variable {texts others : List String}

/-- Every text comes before those behind it, so each is there once. -/
def IsAscending (texts : List String) : Prop :=
  texts.Pairwise (· < ·)

theorem lt_of_le_of_ne {a b : String} (hle : a ≤ b) (hne : a ≠ b) : a < b :=
  String.not_le.mp fun hge => hne (String.le_antisymm hle hge)

theorem IsAscending.nodup (h : IsAscending texts) : texts.Nodup := by
  refine List.Pairwise.imp ?_ h
  intro a b hlt heq
  exact String.lt_irrefl a (heq ▸ hlt)

/-- There is one way to put texts into ascending order. -/
theorem IsAscending.eq_of_mem_iff (h : IsAscending texts) (h' : IsAscending others)
    (hmem : ∀ text, text ∈ texts ↔ text ∈ others) : texts = others := by
  have hperm : texts.Perm others := (List.perm_ext_iff_of_nodup h.nodup h'.nodup).mpr hmem
  refine hperm.eq_of_pairwise ?_ h h'
  intro a b _ _ hab hba
  exact absurd hba (String.lt_asymm hab)

theorem isAscending_mergeSort (hnodup : texts.Nodup) :
    IsAscending (texts.mergeSort fun a b => decide (a ≤ b)) := by
  have hsorted : (texts.mergeSort fun a b => decide (a ≤ b)).Pairwise
      fun a b => decide (a ≤ b) = true := by
    refine List.pairwise_mergeSort ?_ ?_ texts
    · intro a b c hab hbc
      rw [decide_eq_true_eq] at hab hbc ⊢
      exact String.le_trans hab hbc
    · intro a b
      rw [Bool.or_eq_true, decide_eq_true_eq, decide_eq_true_eq]
      exact String.le_total a b
  have hapart : (texts.mergeSort fun a b => decide (a ≤ b)).Nodup :=
    (List.mergeSort_perm ..).nodup_iff.mpr hnodup
  refine (hsorted.and hapart).imp ?_
  intro a b h
  exact lt_of_le_of_ne (of_decide_eq_true h.1) h.2

/-- Of every text, only the first copy is left. -/
theorem nodup_eraseDups (texts : List String) : texts.eraseDups.Nodup := by
  -- By length, because what is left of the rest of a list is not the rest itself.
  induction hlength : texts.length using Nat.strongRecOn generalizing texts with
  | ind length ih =>
  cases texts with
  | nil => exact List.nodup_nil
  | cons text rest =>
      rw [List.eraseDups_cons, List.nodup_cons]
      constructor
      · simp [List.mem_eraseDups]
      · refine ih _ ?_ _ rfl
        have hless := List.length_filter_le (fun other => !other == text) rest
        rw [← hlength, List.length_cons]
        omega

end LintRepair.Text
