import Mathlib.Data.List.Basic
import Mathlib.Data.List.Induction
import Mathlib.Data.List.Sort
import Mathlib.Tactic.Common
import LintRepair.Selection

/-!
# What a selection is

A selection is a split of the positions of the candidates.  `IsSplit` says which one without looking
at how it is found: kept candidates do not conflict, and each deferred one conflicts with a kept one
before it.

* `exists_isSplit` is the loop invariant, carried over the candidates from the left: adding one more
  candidate extends the split of the earlier ones by one position, on the side where it belongs.
* `IsSplit.unique` is an induction on positions.  Whether a candidate is kept depends on the kept
  ones before it alone, so two splits cannot part at a first position.

So `select` returns that one split, and what it selects has no conflicts (`selected_pairwise`) while
everything that remains is blocked (`exists_selected_of_mem_remaining`).
-/

namespace LintRepair.Selection

variable {candidates front back : List Fix} {fix : Fix} {kept deferred positions : List Nat}
  {i j : Nat}

/-! ## Candidates by position -/

/-- The candidates at some positions. -/
def fixesAt (candidates : List Fix) (positions : List Nat) : List Fix :=
  positions.filterMap fun i => candidates[i]?

/-- The candidates at two positions conflict. -/
def ConflictAt (candidates : List Fix) (i j : Nat) : Prop :=
  ∃ a b, candidates[i]? = some a ∧ candidates[j]? = some b ∧ a.Conflicts b

theorem mem_fixesAt {a : Fix} :
    a ∈ fixesAt candidates positions ↔ ∃ i ∈ positions, candidates[i]? = some a :=
  List.mem_filterMap

/-- More candidates at the end leave the earlier positions as they are. -/
theorem fixesAt_append (hpositions : ∀ i ∈ positions, i < front.length) :
    fixesAt (front ++ back) positions = fixesAt front positions :=
  List.filterMap_congr fun i hi => List.getElem?_append_left (hpositions i hi)

theorem fixesAt_concat (hpositions : ∀ i ∈ positions, i < front.length) :
    fixesAt (front ++ [fix]) (positions ++ [front.length]) = fixesAt front positions ++ [fix] := by
  have hearlier : fixesAt (front ++ [fix]) positions = fixesAt front positions :=
    fixesAt_append hpositions
  have hlast : fixesAt (front ++ [fix]) [front.length] = [fix] := by
    simp [fixesAt]
  calc fixesAt (front ++ [fix]) (positions ++ [front.length])
      = fixesAt (front ++ [fix]) positions ++ fixesAt (front ++ [fix]) [front.length] :=
        List.filterMap_append
    _ = fixesAt front positions ++ [fix] := by rw [hearlier, hlast]

theorem ConflictAt.symm (h : ConflictAt candidates i j) : ConflictAt candidates j i := by
  obtain ⟨a, b, ha, hb, hconflict⟩ := h
  exact ⟨b, a, hb, ha, Fix.conflicts_comm.mp hconflict⟩

theorem conflictAt_append (hi : i < front.length) (hj : j < front.length) :
    ConflictAt (front ++ back) i j ↔ ConflictAt front i j := by
  unfold ConflictAt
  rw [List.getElem?_append_left hi, List.getElem?_append_left hj]

theorem conflictAt_concat (hi : i < front.length) :
    ConflictAt (front ++ [fix]) i front.length ↔
      ∃ a, front[i]? = some a ∧ a.Conflicts fix := by
  unfold ConflictAt
  rw [List.getElem?_append_left hi, List.getElem?_concat_length]
  constructor
  · rintro ⟨a, b, ha, hb, hconflict⟩
    cases hb
    exact ⟨a, ha, hconflict⟩
  · rintro ⟨a, ha, hconflict⟩
    exact ⟨a, fix, ha, rfl, hconflict⟩

/-! ## Splits -/

/-- The positions of the candidates, split into those that are kept and those that are deferred. -/
structure IsSplit (candidates : List Fix) (kept deferred : List Nat) : Prop where
  /-- Both sides are in candidate order. -/
  kept_ordered : kept.Pairwise (· < ·)
  deferred_ordered : deferred.Pairwise (· < ·)
  /-- Every position is on one side. -/
  mem_or_mem_iff : ∀ i, i ∈ kept ∨ i ∈ deferred ↔ i < candidates.length
  /-- No position is on both. -/
  apart : ∀ i ∈ kept, i ∉ deferred
  /-- Kept candidates do not conflict. -/
  compatible : ∀ i ∈ kept, ∀ j ∈ kept, i ≠ j → ¬ ConflictAt candidates i j
  /-- Deferred candidates conflict with a kept one before them. -/
  blocked : ∀ j ∈ deferred, ∃ i ∈ kept, i < j ∧ ConflictAt candidates i j

namespace IsSplit

theorem lt_of_mem_kept (h : IsSplit candidates kept deferred) (hi : i ∈ kept) :
    i < candidates.length :=
  (h.mem_or_mem_iff i).mp (Or.inl hi)

theorem lt_of_mem_deferred (h : IsSplit candidates kept deferred) (hi : i ∈ deferred) :
    i < candidates.length :=
  (h.mem_or_mem_iff i).mp (Or.inr hi)

theorem pairwise_concat (hordered : positions.Pairwise (· < ·))
    (hpositions : ∀ i ∈ positions, i < front.length) :
    (positions ++ [front.length]).Pairwise (· < ·) := by
  rw [List.pairwise_append]
  refine ⟨hordered, List.pairwise_singleton .., fun i hi j hj => ?_⟩
  rw [List.mem_singleton.mp hj]
  exact hpositions i hi

/-- A candidate that conflicts with no kept one is kept. -/
theorem concat_kept (h : IsSplit front kept deferred)
    (hfree : ∀ a ∈ fixesAt front kept, ¬ a.Conflicts fix) :
    IsSplit (front ++ [fix]) (kept ++ [front.length]) deferred where
  kept_ordered := pairwise_concat h.kept_ordered fun _ => h.lt_of_mem_kept
  deferred_ordered := h.deferred_ordered
  mem_or_mem_iff i := by
    rw [List.mem_append, List.mem_singleton, or_right_comm, h.mem_or_mem_iff, List.length_append,
      List.length_singleton]
    omega
  apart i hi hdeferred := by
    rcases List.mem_append.mp hi with hi | hi
    · exact h.apart i hi hdeferred
    · rw [List.mem_singleton.mp hi] at hdeferred
      exact Nat.lt_irrefl _ (h.lt_of_mem_deferred hdeferred)
  compatible := by
    -- Pairs without the new position are old ones.
    have hlast : ∀ i ∈ kept, ¬ ConflictAt (front ++ [fix]) i front.length := by
      intro i hi hconflict
      obtain ⟨a, ha, hconflict⟩ := (conflictAt_concat (h.lt_of_mem_kept hi)).mp hconflict
      exact hfree a (mem_fixesAt.mpr ⟨i, hi, ha⟩) hconflict
    intro i hi j hj hne
    rw [List.mem_append, List.mem_singleton] at hi hj
    rcases hi with hi | rfl
    · rcases hj with hj | rfl
      · rw [conflictAt_append (h.lt_of_mem_kept hi) (h.lt_of_mem_kept hj)]
        exact h.compatible i hi j hj hne
      · exact hlast i hi
    · rcases hj with hj | rfl
      · exact fun hconflict => hlast j hj hconflict.symm
      · exact absurd rfl hne
  blocked j hj := by
    obtain ⟨i, hi, hlt, hconflict⟩ := h.blocked j hj
    exact ⟨i, List.mem_append_left _ hi, hlt,
      (conflictAt_append (h.lt_of_mem_kept hi) (h.lt_of_mem_deferred hj)).mpr hconflict⟩

/-- A candidate that conflicts with a kept one is deferred. -/
theorem concat_deferred (h : IsSplit front kept deferred) {a : Fix}
    (ha : a ∈ fixesAt front kept) (hconflict : a.Conflicts fix) :
    IsSplit (front ++ [fix]) kept (deferred ++ [front.length]) where
  kept_ordered := h.kept_ordered
  deferred_ordered := pairwise_concat h.deferred_ordered fun _ => h.lt_of_mem_deferred
  mem_or_mem_iff i := by
    rw [List.mem_append, List.mem_singleton, ← or_assoc, h.mem_or_mem_iff, List.length_append,
      List.length_singleton]
    omega
  apart i hi hdeferred := by
    rcases List.mem_append.mp hdeferred with hdeferred | hdeferred
    · exact h.apart i hi hdeferred
    · exact Nat.ne_of_lt (h.lt_of_mem_kept hi) (List.mem_singleton.mp hdeferred)
  compatible i hi j hj hne := by
    rw [conflictAt_append (h.lt_of_mem_kept hi) (h.lt_of_mem_kept hj)]
    exact h.compatible i hi j hj hne
  blocked j hj := by
    rcases List.mem_append.mp hj with hj | hj
    · obtain ⟨i, hi, hlt, hconflict⟩ := h.blocked j hj
      exact ⟨i, hi, hlt,
        (conflictAt_append (h.lt_of_mem_kept hi) (h.lt_of_mem_deferred hj)).mpr hconflict⟩
    · -- The new candidate stands behind all others, so what it conflicts with stands before it.
      obtain ⟨i, hi, hfix⟩ := mem_fixesAt.mp ha
      have hlt := h.lt_of_mem_kept hi
      rw [List.mem_singleton.mp hj]
      exact ⟨i, hi, hlt, (conflictAt_concat hlt).mpr ⟨a, hfix, hconflict⟩⟩

/-! ## There is only one -/

variable {kept' deferred' : List Nat}

/-- Whether a candidate is kept depends on the kept ones before it alone. -/
theorem mem_kept_of_agree (h : IsSplit candidates kept deferred)
    (h' : IsSplit candidates kept' deferred') (hbefore : ∀ j < i, j ∈ kept ↔ j ∈ kept')
    (hi : i ∈ kept) : i ∈ kept' := by
  by_contra hnot
  -- A kept position before `i` blocks it in the other split, but both keep the same ones there.
  have hdeferred : i ∈ deferred' :=
    ((h'.mem_or_mem_iff i).mpr (h.lt_of_mem_kept hi)).resolve_left hnot
  obtain ⟨j, hj, hlt, hconflict⟩ := h'.blocked i hdeferred
  exact h.compatible j ((hbefore j hlt).mpr hj) i hi (Nat.ne_of_lt hlt) hconflict

theorem mem_kept_iff (h : IsSplit candidates kept deferred)
    (h' : IsSplit candidates kept' deferred') (i : Nat) : i ∈ kept ↔ i ∈ kept' := by
  induction i using Nat.strongRecOn with
  | ind i ih =>
      exact ⟨h.mem_kept_of_agree h' ih, h'.mem_kept_of_agree h fun j hj => (ih j hj).symm⟩

theorem mem_deferred_iff (h : IsSplit candidates kept deferred) (i : Nat) :
    i ∈ deferred ↔ i < candidates.length ∧ i ∉ kept := by
  rw [← h.mem_or_mem_iff]
  constructor
  · intro hi
    exact ⟨Or.inr hi, fun hkept => h.apart i hkept hi⟩
  · rintro ⟨hi, hnot⟩
    exact hi.resolve_left hnot

/-- The candidates have one split. -/
theorem unique (h : IsSplit candidates kept deferred) (h' : IsSplit candidates kept' deferred') :
    kept' = kept ∧ deferred' = deferred := by
  constructor
  · exact h'.kept_ordered.eq_of_mem_iff h.kept_ordered (h'.mem_kept_iff h)
  · refine h'.deferred_ordered.eq_of_mem_iff h.deferred_ordered fun i => ?_
    rw [h'.mem_deferred_iff, h.mem_deferred_iff, h'.mem_kept_iff h]

end IsSplit

/-! ## Selecting -/

theorem select_concat (front : List Fix) (fix : Fix) :
    select (front ++ [fix]) = (select front).add fix := by
  unfold select
  rw [List.foldl_append]
  rfl

theorem length_add (selection : Selection) (fix : Fix) :
    (selection.add fix).selected.length + (selection.add fix).remaining.length =
      selection.selected.length + selection.remaining.length + 1 := by
  unfold Selection.add
  cases selection.blocker? fix with
  | some blocker =>
      show selection.selected.length + (selection.remaining ++ [fix]).length = _
      rw [List.length_append, List.length_singleton]
      omega
  | none =>
      show (selection.selected ++ [fix]).length + selection.remaining.length = _
      rw [List.length_append, List.length_singleton]
      omega

/-- Every candidate is selected or remains. -/
theorem length_selected_add_remaining (candidates : List Fix) :
    (select candidates).selected.length + (select candidates).remaining.length =
      candidates.length := by
  induction candidates using List.reverseRecOn with
  | nil => rfl
  | append_singleton front fix ih =>
      rw [select_concat, length_add, ih, List.length_append, List.length_singleton]

theorem exists_isSplit (candidates : List Fix) :
    ∃ kept deferred, IsSplit candidates kept deferred ∧
      select candidates = ⟨fixesAt candidates kept, fixesAt candidates deferred⟩ := by
  -- Candidates are added at the end of what has been sorted out, so they are taken off there.
  induction candidates using List.reverseRecOn with
  | nil =>
      refine ⟨[], [], ?_, rfl⟩
      constructor <;> simp
  | append_singleton front fix ih =>
      obtain ⟨kept, deferred, hsplit, hselect⟩ := ih
      rw [select_concat, hselect]
      unfold Selection.add
      cases hblocker : Selection.blocker? ⟨fixesAt front kept, fixesAt front deferred⟩ fix with
      | some blocker =>
          have hmem : blocker ∈ fixesAt front kept := List.mem_of_find?_eq_some hblocker
          have hconflict : fix.Conflicts blocker := by
            simpa using List.find?_some hblocker
          refine ⟨kept, deferred ++ [front.length],
            hsplit.concat_deferred hmem (Fix.conflicts_comm.mp hconflict), ?_⟩
          rw [fixesAt_append fun _ => hsplit.lt_of_mem_kept,
            fixesAt_concat fun _ => hsplit.lt_of_mem_deferred]
      | none =>
          have hfree : ∀ a ∈ fixesAt front kept, ¬ a.Conflicts fix := by
            intro a ha hconflict
            have hnone := List.find?_eq_none.mp hblocker a ha
            exact hnone (decide_eq_true (Fix.conflicts_comm.mp hconflict))
          refine ⟨kept ++ [front.length], deferred, hsplit.concat_kept hfree, ?_⟩
          rw [fixesAt_concat fun _ => hsplit.lt_of_mem_kept,
            fixesAt_append fun _ => hsplit.lt_of_mem_deferred]

theorem select_of_isSplit (h : IsSplit candidates kept deferred) :
    select candidates = ⟨fixesAt candidates kept, fixesAt candidates deferred⟩ := by
  obtain ⟨kept', deferred', hsplit, hselect⟩ := exists_isSplit candidates
  obtain ⟨rfl, rfl⟩ := hsplit.unique h
  exact hselect

theorem mem_of_mem_selected {a : Fix} (ha : a ∈ (select candidates).selected) :
    a ∈ candidates := by
  obtain ⟨kept, deferred, -, hselect⟩ := exists_isSplit candidates
  rw [hselect] at ha
  obtain ⟨i, -, hfix⟩ := mem_fixesAt.mp ha
  exact List.mem_of_getElem? hfix

theorem selected_pairwise (candidates : List Fix) :
    (select candidates).selected.Pairwise fun a b => ¬ a.Conflicts b := by
  obtain ⟨kept, deferred, hsplit, hselect⟩ := exists_isSplit candidates
  rw [hselect]
  unfold fixesAt
  rw [List.pairwise_filterMap]
  refine hsplit.kept_ordered.imp_of_mem fun {i j} hi hj hlt a ha b hb hconflict => ?_
  exact hsplit.compatible i hi j hj (Nat.ne_of_lt hlt) ⟨a, b, ha, hb, hconflict⟩

theorem exists_selected_of_mem_remaining {r : Fix} (hr : r ∈ (select candidates).remaining) :
    ∃ a ∈ (select candidates).selected, a.Conflicts r := by
  obtain ⟨kept, deferred, hsplit, hselect⟩ := exists_isSplit candidates
  rw [hselect] at hr ⊢
  obtain ⟨j, hj, hfix⟩ := mem_fixesAt.mp hr
  obtain ⟨i, hi, _, a, b, ha, hb, hconflict⟩ := hsplit.blocked j hj
  rw [hfix, Option.some.injEq] at hb
  subst hb
  exact ⟨a, mem_fixesAt.mpr ⟨i, hi, ha⟩, hconflict⟩

end LintRepair.Selection
