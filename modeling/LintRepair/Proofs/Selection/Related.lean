import Mathlib.Logic.Equiv.Basic
import LintRepair.Proofs.Selection.Split

/-!
# Selections of related lists

Selecting is greedy, so in general a candidate decides about all that come after it.  This file says
when it does not.  The candidates at some positions, named in any order, are a list of their own;
`IsSplit.restrict` shows that they fall on the same sides as before, provided that all kept ones are
among them and that conflicting ones come in the old order.  A kept candidate then has nobody to
fear, and a deferred one finds the kept candidate that blocks it in front of it again.

Two relations between lists are of that kind.

* Two neighbours that do not conflict may change places (`select_exchange`).
* Deferred candidates may be left out, any of them or all (`select_without_deferred`).
-/

namespace LintRepair.Selection

variable {candidates : List Fix} {kept deferred positions chosen : List Nat} {i j m n : Nat}

/-! ## Candidates at some positions, as a list of their own -/

theorem fixesAt_append_positions (candidates : List Fix) (front back : List Nat) :
    fixesAt candidates (front ++ back) = fixesAt candidates front ++ fixesAt candidates back :=
  List.filterMap_append

theorem fixesAt_cons (hi : i < candidates.length) (rest : List Nat) :
    fixesAt candidates (i :: rest) = candidates[i] :: fixesAt candidates rest := by
  unfold fixesAt
  rw [List.filterMap_cons, List.getElem?_eq_getElem hi]

theorem getElem?_fixesAt (hbound : ∀ i ∈ positions, i < candidates.length) (n : Nat) :
    (fixesAt candidates positions)[n]? = positions[n]?.bind fun i => candidates[i]? := by
  induction positions generalizing n with
  | nil => rfl
  | cons i rest ih =>
      rw [List.forall_mem_cons] at hbound
      rw [fixesAt_cons hbound.1]
      cases n with
      | zero => simp [hbound.1]
      | succ n => simpa using ih hbound.2 n

theorem length_fixesAt (hbound : ∀ i ∈ positions, i < candidates.length) :
    (fixesAt candidates positions).length = positions.length := by
  induction positions with
  | nil => rfl
  | cons i rest ih =>
      rw [List.forall_mem_cons] at hbound
      rw [fixesAt_cons hbound.1, List.length_cons, List.length_cons, ih hbound.2]

/-- The positions that stand at some indices of a list of positions. -/
def positionsAt (positions indices : List Nat) : List Nat :=
  indices.filterMap fun n => positions[n]?

theorem mem_positionsAt {indices : List Nat} :
    i ∈ positionsAt positions indices ↔ ∃ n ∈ indices, positions[n]? = some i :=
  List.mem_filterMap

theorem fixesAt_fixesAt (hbound : ∀ i ∈ positions, i < candidates.length) (indices : List Nat) :
    fixesAt (fixesAt candidates positions) indices =
      fixesAt candidates (positionsAt positions indices) := by
  calc fixesAt (fixesAt candidates positions) indices
      = indices.filterMap fun n => positions[n]?.bind fun i => candidates[i]? :=
        List.filterMap_congr fun n _ => getElem?_fixesAt hbound n
    _ = fixesAt candidates (positionsAt positions indices) := List.filterMap_filterMap.symm

/-- Where the chosen positions are named. -/
def indicesOf (positions chosen : List Nat) : List Nat :=
  (List.range positions.length).filter fun n => decide (∃ i ∈ chosen, positions[n]? = some i)

theorem mem_indicesOf : n ∈ indicesOf positions chosen ↔ ∃ i ∈ chosen, positions[n]? = some i := by
  rw [indicesOf, List.mem_filter, List.mem_range, decide_eq_true_eq, and_iff_right_iff_imp]
  rintro ⟨i, _, hn⟩
  exact (List.getElem?_eq_some_iff.mp hn).1

theorem indicesOf_pairwise (positions chosen : List Nat) :
    (indicesOf positions chosen).Pairwise (· < ·) :=
  List.pairwise_lt_range.filter _

theorem indicesOf_concat (positions chosen : List Nat) (i : Nat) :
    indicesOf (positions ++ [i]) chosen =
      indicesOf positions chosen ++ if i ∈ chosen then [positions.length] else [] := by
  have hearlier : ∀ n ∈ List.range positions.length,
      decide (∃ j ∈ chosen, (positions ++ [i])[n]? = some j) =
        decide (∃ j ∈ chosen, positions[n]? = some j) := by
    intro n hn
    rw [List.getElem?_append_left (List.mem_range.mp hn)]
  have hlast : (∃ j ∈ chosen, (positions ++ [i])[positions.length]? = some j) ↔ i ∈ chosen := by
    simp
  unfold indicesOf
  rw [List.length_append, List.length_singleton, List.range_succ, List.filter_append,
    List.filter_congr hearlier, List.filter_singleton]
  simp only [hlast, Bool.cond_decide]

/-- At these indices stand the chosen positions, in the order in which they are named. -/
theorem positionsAt_indicesOf (positions chosen : List Nat) :
    positionsAt positions (indicesOf positions chosen) =
      positions.filter fun i => decide (i ∈ chosen) := by
  unfold positionsAt
  induction positions using List.reverseRecOn with
  | nil => rfl
  | append_singleton positions i ih =>
      have hearlier : ((indicesOf positions chosen).filterMap fun n => (positions ++ [i])[n]?) =
          (indicesOf positions chosen).filterMap fun n => positions[n]? := by
        refine List.filterMap_congr fun n hn => List.getElem?_append_left ?_
        obtain ⟨j, _, hj⟩ := mem_indicesOf.mp hn
        exact (List.getElem?_eq_some_iff.mp hj).1
      rw [indicesOf_concat, List.filterMap_append, hearlier, ih, List.filter_append]
      split
      next hi => simp [hi]
      next hi => simp [hi]

theorem fixesAt_indicesOf (hbound : ∀ i ∈ positions, i < candidates.length) :
    fixesAt (fixesAt candidates positions) (indicesOf positions chosen) =
      fixesAt candidates (positions.filter fun i => decide (i ∈ chosen)) := by
  rw [fixesAt_fixesAt hbound, positionsAt_indicesOf]

theorem conflictAt_fixesAt (hbound : ∀ i ∈ positions, i < candidates.length)
    (hm : positions[m]? = some i) (hn : positions[n]? = some j) :
    ConflictAt (fixesAt candidates positions) m n ↔ ConflictAt candidates i j := by
  unfold ConflictAt
  rw [getElem?_fixesAt hbound, getElem?_fixesAt hbound, hm, hn, Option.bind_some, Option.bind_some]

theorem pairwise_getElem? {R : Nat → Nat → Prop} (hpairs : positions.Pairwise R) (hlt : m < n)
    (hm : positions[m]? = some i) (hn : positions[n]? = some j) : R i j := by
  obtain ⟨hmLength, rfl⟩ := List.getElem?_eq_some_iff.mp hm
  obtain ⟨hnLength, rfl⟩ := List.getElem?_eq_some_iff.mp hn
  exact List.pairwise_iff_getElem.mp hpairs m n hmLength hnLength hlt

/-- Positions, in any order, that hold on to what decides a selection: all kept candidates, and the
order of conflicting ones. -/
structure Retains (candidates : List Fix) (kept positions : List Nat) : Prop where
  nodup : positions.Nodup
  bound : ∀ i ∈ positions, i < candidates.length
  all_kept : ∀ i ∈ kept, i ∈ positions
  conflicts_ordered : positions.Pairwise fun i j => ConflictAt candidates i j → i < j

/-- The candidates at such positions fall on the same sides as before. -/
theorem IsSplit.restrict (h : IsSplit candidates kept deferred)
    (hretains : Retains candidates kept positions) :
    IsSplit (fixesAt candidates positions) (indicesOf positions kept)
      (indicesOf positions deferred) where
  kept_ordered := indicesOf_pairwise ..
  deferred_ordered := indicesOf_pairwise ..
  mem_or_mem_iff n := by
    rw [mem_indicesOf, mem_indicesOf, length_fixesAt hretains.bound]
    constructor
    · rintro (⟨i, _, hn⟩ | ⟨i, _, hn⟩)
      · exact (List.getElem?_eq_some_iff.mp hn).1
      · exact (List.getElem?_eq_some_iff.mp hn).1
    · intro hlt
      have hn : positions[n]? = some positions[n] := List.getElem?_eq_getElem hlt
      rcases (h.mem_or_mem_iff _).mpr (hretains.bound _ (List.getElem_mem hlt)) with hi | hi
      · exact Or.inl ⟨_, hi, hn⟩
      · exact Or.inr ⟨_, hi, hn⟩
  apart n hn hdeferred := by
    obtain ⟨i, hi, hni⟩ := mem_indicesOf.mp hn
    obtain ⟨j, hj, hnj⟩ := mem_indicesOf.mp hdeferred
    rw [hni, Option.some.injEq] at hnj
    exact h.apart i hi (hnj ▸ hj)
  compatible m hm n hn hne := by
    obtain ⟨i, hi, hmi⟩ := mem_indicesOf.mp hm
    obtain ⟨j, hj, hnj⟩ := mem_indicesOf.mp hn
    rw [conflictAt_fixesAt hretains.bound hmi hnj]
    refine h.compatible i hi j hj fun hij => hne ?_
    have hlt : m < positions.length := (List.getElem?_eq_some_iff.mp hmi).1
    exact (List.getElem?_inj hlt hretains.nodup).mp (hmi.trans (hij ▸ hnj.symm))
  blocked n hn := by
    obtain ⟨j, hj, hnj⟩ := mem_indicesOf.mp hn
    obtain ⟨i, hi, hlt, hconflict⟩ := h.blocked j hj
    obtain ⟨m, hmi⟩ := List.mem_iff_getElem?.mp (hretains.all_kept i hi)
    refine ⟨m, mem_indicesOf.mpr ⟨i, hi, hmi⟩, ?_,
      (conflictAt_fixesAt hretains.bound hmi hnj).mpr hconflict⟩
    -- Named behind the candidate that it blocks, the kept one would have to be the later one.
    rcases Nat.lt_trichotomy m n with hmn | hmn | hnm
    · exact hmn
    · rw [hmn, hnj, Option.some.injEq] at hmi
      omega
    · have hpair := pairwise_getElem? hretains.conflicts_ordered hnm hnj hmi hconflict.symm
      omega

/-- So they are selected and deferred as before, in the order in which they are named. -/
theorem IsSplit.select_fixesAt (h : IsSplit candidates kept deferred)
    (hretains : Retains candidates kept positions) :
    select (fixesAt candidates positions) =
      ⟨fixesAt candidates (positions.filter fun i => decide (i ∈ kept)),
        fixesAt candidates (positions.filter fun i => decide (i ∈ deferred))⟩ := by
  rw [select_of_isSplit (h.restrict hretains), fixesAt_indicesOf hretains.bound,
    fixesAt_indicesOf hretains.bound]

/-! ## Deferred candidates left out -/

theorem filter_mem_comm {first second : List Nat} (hfirst : first.Pairwise (· < ·))
    (hsecond : second.Pairwise (· < ·)) :
    first.filter (fun i => decide (i ∈ second)) = second.filter fun i => decide (i ∈ first) := by
  refine (hfirst.filter _).eq_of_mem_iff (hsecond.filter _) fun i => ?_
  rw [List.mem_filter, List.mem_filter, decide_eq_true_eq, decide_eq_true_eq, and_comm]

/-- Among ascending positions with all kept ones, the kept candidates are selected, and the others
are deferred. -/
theorem IsSplit.select_fixesAt_of_ordered (h : IsSplit candidates kept deferred)
    (hordered : positions.Pairwise (· < ·)) (hbound : ∀ i ∈ positions, i < candidates.length)
    (hkept : ∀ i ∈ kept, i ∈ positions) :
    select (fixesAt candidates positions) =
      ⟨fixesAt candidates kept,
        fixesAt candidates (deferred.filter fun i => decide (i ∈ positions))⟩ := by
  have hretains : Retains candidates kept positions := by
    refine ⟨hordered.imp Nat.ne_of_lt, hbound, hkept, hordered.imp ?_⟩
    intro i j hlt _
    exact hlt
  have hall : kept.filter (fun i => decide (i ∈ positions)) = kept :=
    List.filter_eq_self.mpr fun i hi => decide_eq_true (hkept i hi)
  rw [h.select_fixesAt hretains, filter_mem_comm hordered h.kept_ordered, hall,
    filter_mem_comm hordered h.deferred_ordered]

/-- The candidates without those at some positions. -/
def without (candidates : List Fix) (gone : List Nat) : List Fix :=
  fixesAt candidates ((List.range candidates.length).filter fun i => decide (i ∉ gone))

/-- Leaving out deferred candidates changes nothing but that they are not among the deferred. -/
theorem IsSplit.select_without (h : IsSplit candidates kept deferred) {gone : List Nat}
    (hgone : ∀ i ∈ gone, i ∈ deferred) :
    select (without candidates gone) =
      ⟨fixesAt candidates kept,
        fixesAt candidates (deferred.filter fun i => decide (i ∉ gone))⟩ := by
  have hmem : ∀ i, i ∈ (List.range candidates.length).filter (fun i => decide (i ∉ gone)) ↔
      i < candidates.length ∧ i ∉ gone := by
    intro i
    rw [List.mem_filter, List.mem_range, decide_eq_true_eq]
  have hstay : deferred.filter (fun i => decide
        (i ∈ (List.range candidates.length).filter fun i => decide (i ∉ gone))) =
      deferred.filter fun i => decide (i ∉ gone) := by
    refine List.filter_congr fun i hi => decide_eq_decide.mpr ?_
    rw [hmem, and_iff_right (h.lt_of_mem_deferred hi)]
  unfold without
  rw [h.select_fixesAt_of_ordered (List.pairwise_lt_range.filter _)
    (fun i hi => ((hmem i).mp hi).1) ?_, hstay]
  intro i hi
  exact (hmem i).mpr ⟨h.lt_of_mem_kept hi, fun hmemGone => h.apart i hi (hgone i hmemGone)⟩

/-- Selecting among what was selected defers nothing. -/
theorem IsSplit.select_kept (h : IsSplit candidates kept deferred) :
    select (fixesAt candidates kept) = ⟨fixesAt candidates kept, []⟩ := by
  have hnone : deferred.filter (fun i => decide (i ∈ kept)) = [] := by
    rw [List.filter_eq_nil_iff]
    intro i hi hkept
    exact h.apart i (of_decide_eq_true hkept) hi
  rw [h.select_fixesAt_of_ordered h.kept_ordered (fun _ => h.lt_of_mem_kept) fun _ hi => hi, hnone]
  rfl

/-- A deferred fix is in nobody's way.  Without any of the candidates that a selection defers, the
others fall on the same sides, in the same order; and selecting among the selected ones alone
selects them all. -/
theorem select_without_deferred (candidates : List Fix) :
    ∃ kept deferred, IsSplit candidates kept deferred ∧
      select candidates = ⟨fixesAt candidates kept, fixesAt candidates deferred⟩ ∧
      (∀ gone : List Nat, (∀ i ∈ gone, i ∈ deferred) →
        select (without candidates gone) =
          ⟨(select candidates).selected,
            fixesAt candidates (deferred.filter fun i => decide (i ∉ gone))⟩) ∧
      select (select candidates).selected = ⟨(select candidates).selected, []⟩ := by
  obtain ⟨kept, deferred, hsplit, hselect⟩ := exists_isSplit candidates
  refine ⟨kept, deferred, hsplit, hselect, ?_, ?_⟩
  · intro gone hgone
    rw [hselect]
    exact hsplit.select_without hgone
  · rw [hselect]
    exact hsplit.select_kept

/-- Three fixes, of which the second reaches into both others and comes twice. -/
def withRepetition : List Fix := [.single "a" ⟨0, 4, "x", 0⟩, .single "b" ⟨2, 6, "y", 0⟩,
  .single "b" ⟨2, 6, "y", 0⟩, .single "c" ⟨6, 3, "z", 0⟩]

/-- Without the one of two equal candidates, the other is still deferred. -/
theorem select_without_deferred_repetition :
    IsSplit withRepetition [0, 3] [1, 2] ∧ (∀ i ∈ [1], i ∈ [1, 2]) ∧
      select (without withRepetition [1]) =
        ⟨[.single "a" ⟨0, 4, "x", 0⟩, .single "c" ⟨6, 3, "z", 0⟩],
          [.single "b" ⟨2, 6, "y", 0⟩]⟩ := by
  have hnone : IsSplit [] [] [] := by
    constructor <;> simp
  have hfirst : IsSplit [.single "a" ⟨0, 4, "x", 0⟩] [0] [] := hnone.concat_kept (by decide)
  have hsecond : IsSplit [.single "a" ⟨0, 4, "x", 0⟩, .single "b" ⟨2, 6, "y", 0⟩] [0] [1] :=
    hfirst.concat_deferred List.mem_cons_self (by decide)
  have hthird : IsSplit [.single "a" ⟨0, 4, "x", 0⟩, .single "b" ⟨2, 6, "y", 0⟩,
      .single "b" ⟨2, 6, "y", 0⟩] [0] [1, 2] :=
    hsecond.concat_deferred List.mem_cons_self (by decide)
  have hsplit : IsSplit withRepetition [0, 3] [1, 2] := hthird.concat_kept (by decide)
  have hgone : ∀ i ∈ [1], i ∈ [1, 2] := by decide
  obtain ⟨kept, deferred, hfound, _, hwithout, _⟩ := select_without_deferred withRepetition
  obtain ⟨rfl, rfl⟩ := hsplit.unique hfound
  exact ⟨hsplit, hgone, hwithout [1] hgone⟩

/-! ## Neighbours that change places -/

variable {a b : Fix} {xs ys : List Fix}

/-- The positions around two neighbours at `n`. -/
theorem range_around (n m : Nat) :
    List.range (n + 2 + m) =
      List.range n ++ [n, n + 1] ++ (List.range m).map (fun i => n + 2 + i) := by
  rw [List.range_add, List.range_succ, List.range_succ, List.append_assoc (List.range n)]
  rfl

theorem map_swap_range (n m : Nat) :
    (List.range (n + 2 + m)).map (Equiv.swap n (n + 1)) =
      List.range n ++ [n + 1, n] ++ (List.range m).map (fun i => n + 2 + i) := by
  have hfront : (List.range n).map (Equiv.swap n (n + 1)) = List.range n := by
    refine (List.map_congr_left fun i hi => ?_).trans (List.map_id _)
    have hlt := List.mem_range.mp hi
    exact Equiv.swap_apply_of_ne_of_ne (by omega) (by omega)
  have hback : ∀ i, Equiv.swap n (n + 1) (n + 2 + i) = n + 2 + i :=
    fun i => Equiv.swap_apply_of_ne_of_ne (by omega) (by omega)
  rw [range_around, List.map_append, List.map_append, hfront, List.map_map]
  simp only [List.map_cons, List.map_nil, Equiv.swap_apply_left, Equiv.swap_apply_right,
    Function.comp_def, hback]

theorem length_around (a b : Fix) (xs ys : List Fix) :
    (xs ++ [a, b] ++ ys).length = xs.length + 2 + ys.length := by
  rw [List.length_append, List.length_append]
  rfl

theorem swap_lt (hi : i < n + 2 + m) : Equiv.swap n (n + 1) i < n + 2 + m := by
  rw [Equiv.swap_apply_def]
  split_ifs <;> omega

/-- The positions with two neighbours exchanged. -/
def exchanged (xs ys : List Fix) : List Nat :=
  (List.range (xs.length + 2 + ys.length)).map (Equiv.swap xs.length (xs.length + 1))

theorem getElem?_exchanged (hi : i < xs.length + 2 + ys.length) :
    (exchanged xs ys)[i]? = some (Equiv.swap xs.length (xs.length + 1) i) := by
  rw [exchanged, List.getElem?_map, List.getElem?_range hi, Option.map_some]

theorem lt_of_mem_exchanged (hi : i ∈ exchanged xs ys) : i < xs.length + 2 + ys.length := by
  obtain ⟨j, hj, rfl⟩ := List.mem_map.mp hi
  exact swap_lt (List.mem_range.mp hj)

theorem mem_exchanged (hi : i < xs.length + 2 + ys.length) : i ∈ exchanged xs ys :=
  List.mem_map.mpr ⟨_, List.mem_range.mpr (swap_lt hi), Equiv.swap_apply_self ..⟩

theorem fixesAt_exchanged (a b : Fix) (xs ys : List Fix) :
    fixesAt (xs ++ [a, b] ++ ys) (exchanged xs ys) = xs ++ [b, a] ++ ys := by
  apply List.ext_getElem?
  intro i
  rw [getElem?_fixesAt fun _ hi => length_around a b xs ys ▸ lt_of_mem_exchanged hi]
  by_cases hi : i < xs.length + 2 + ys.length
  · rw [getElem?_exchanged hi, Option.bind_some, Equiv.swap_apply_def]
    split_ifs <;> grind
  · grind [exchanged]

/-- An exchange of two neighbours that do not conflict leaves conflicting candidates in their
order. -/
theorem exchanged_pairwise (hfree : ¬ a.Conflicts b) (xs ys : List Fix) :
    (exchanged xs ys).Pairwise fun i j => ConflictAt (xs ++ [a, b] ++ ys) i j → i < j := by
  have hneighbours : ¬ ConflictAt (xs ++ [a, b] ++ ys) (xs.length + 1) xs.length := by
    rintro ⟨second, first, hsecond, hfirst, hconflict⟩
    have hb : b = second := by simpa using hsecond
    have ha : a = first := by simpa using hfirst
    subst ha hb
    exact hfree (Fix.conflicts_comm.mp hconflict)
  rw [exchanged, List.pairwise_map]
  refine List.pairwise_lt_range.imp ?_
  intro i j hlt hconflict
  by_cases hpair : i = xs.length ∧ j = xs.length + 1
  · obtain ⟨rfl, rfl⟩ := hpair
    rw [Equiv.swap_apply_left, Equiv.swap_apply_right] at hconflict
    exact absurd hconflict hneighbours
  · rw [Equiv.swap_apply_def, Equiv.swap_apply_def]
    split_ifs <;> omega

theorem retains_exchanged (hfree : ¬ a.Conflicts b)
    (hkept : ∀ i ∈ kept, i < xs.length + 2 + ys.length) :
    Retains (xs ++ [a, b] ++ ys) kept (exchanged xs ys) where
  nodup := List.nodup_range.map (Equiv.injective _)
  bound _ hi := length_around a b xs ys ▸ lt_of_mem_exchanged hi
  all_kept i hi := mem_exchanged (hkept i hi)
  conflicts_ordered := exchanged_pairwise hfree xs ys

theorem swap_mem_indicesOf_iff (hbound : ∀ i ∈ chosen, i < xs.length + 2 + ys.length) (i : Nat) :
    Equiv.swap xs.length (xs.length + 1) i ∈ indicesOf (exchanged xs ys) chosen ↔ i ∈ chosen := by
  rw [mem_indicesOf]
  constructor
  · rintro ⟨j, hj, hfound⟩
    have hlt := (List.getElem?_eq_some_iff.mp hfound).1
    rw [exchanged, List.length_map, List.length_range] at hlt
    rw [getElem?_exchanged hlt, Equiv.swap_apply_self, Option.some.injEq] at hfound
    exact hfound ▸ hj
  · intro hi
    refine ⟨i, hi, ?_⟩
    rw [getElem?_exchanged (swap_lt (hbound i hi)), Equiv.swap_apply_self]

/-- The second list is the first, but for neighbours `a` and `b` that may have changed places. -/
def SameButFor (a b : Fix) (first second : List Fix) : Prop :=
  second = first ∨ ∃ front back, first = front ++ [a, b] ++ back ∧ second = front ++ [b, a] ++ back

theorem SameButFor.between {first second : List Fix} (h : SameButFor a b first second)
    (front back : List Fix) :
    SameButFor a b (front ++ first ++ back) (front ++ second ++ back) := by
  rcases h with rfl | ⟨inner, outer, rfl, rfl⟩
  · exact Or.inl rfl
  · exact Or.inr ⟨front ++ inner, outer ++ back, by simp, by simp⟩

/-- The exchange is seen only where both neighbours are chosen. -/
theorem sameButFor_neighbours (p : Nat → Bool) (a b : Fix) (xs ys : List Fix) :
    SameButFor a b (fixesAt (xs ++ [a, b] ++ ys) ([xs.length, xs.length + 1].filter p))
      (fixesAt (xs ++ [a, b] ++ ys) ([xs.length + 1, xs.length].filter p)) := by
  cases hfirst : p xs.length with
  | true =>
      cases hsecond : p (xs.length + 1) with
      | true => exact Or.inr ⟨[], [], by simp [fixesAt, hfirst, hsecond]⟩
      | false => exact Or.inl (by simp [hfirst, hsecond])
  | false => exact Or.inl (by cases hsecond : p (xs.length + 1) <;> simp [hfirst, hsecond])

theorem sameButFor_fixesAt (a b : Fix) (hordered : chosen.Pairwise (· < ·))
    (hbound : ∀ i ∈ chosen, i < xs.length + 2 + ys.length) :
    SameButFor a b (fixesAt (xs ++ [a, b] ++ ys) chosen)
      (fixesAt (xs ++ [a, b] ++ ys)
        ((exchanged xs ys).filter fun i => decide (i ∈ chosen))) := by
  let candidates := xs ++ [a, b] ++ ys
  let chosenOf : List Nat → List Fix :=
    fun positions => fixesAt candidates (positions.filter fun i => decide (i ∈ chosen))
  -- Both sides are three parts; only in the middle part do the two stand in another order.
  have happend : ∀ front back, chosenOf (front ++ back) = chosenOf front ++ chosenOf back := by
    intro front back
    simp only [chosenOf, List.filter_append, fixesAt_append_positions]
  have hall : (List.range (xs.length + 2 + ys.length)).filter (fun i => decide (i ∈ chosen)) =
      chosen := by
    rw [filter_mem_comm List.pairwise_lt_range hordered, List.filter_eq_self]
    exact fun i hi => decide_eq_true (List.mem_range.mpr (hbound i hi))
  have hbefore : fixesAt candidates chosen = chosenOf (List.range xs.length) ++
      chosenOf [xs.length, xs.length + 1] ++
        chosenOf ((List.range ys.length).map fun i => xs.length + 2 + i) := by
    rw [← happend, ← happend, ← range_around]
    simp only [chosenOf, hall]
  have hafter : chosenOf (exchanged xs ys) = chosenOf (List.range xs.length) ++
      chosenOf [xs.length + 1, xs.length] ++
        chosenOf ((List.range ys.length).map fun i => xs.length + 2 + i) := by
    rw [← happend, ← happend, ← map_swap_range, exchanged]
  show SameButFor a b (fixesAt candidates chosen) (chosenOf (exchanged xs ys))
  rw [hbefore, hafter]
  exact (sameButFor_neighbours (fun i => decide (i ∈ chosen)) a b xs ys).between _ _

/-- Two neighbours that do not conflict may change places.  Every candidate falls on the side on
which it fell before, and on each side the candidates stand in the old order, but for the two. -/
theorem select_exchange (hfree : ¬ a.Conflicts b) (xs ys : List Fix) :
    ∃ kept deferred kept' deferred',
      (IsSplit (xs ++ [a, b] ++ ys) kept deferred ∧
        select (xs ++ [a, b] ++ ys) = ⟨fixesAt (xs ++ [a, b] ++ ys) kept,
          fixesAt (xs ++ [a, b] ++ ys) deferred⟩) ∧
      (IsSplit (xs ++ [b, a] ++ ys) kept' deferred' ∧
        select (xs ++ [b, a] ++ ys) = ⟨fixesAt (xs ++ [b, a] ++ ys) kept',
          fixesAt (xs ++ [b, a] ++ ys) deferred'⟩) ∧
      (∀ i, Equiv.swap xs.length (xs.length + 1) i ∈ kept' ↔ i ∈ kept) ∧
      (∀ i, Equiv.swap xs.length (xs.length + 1) i ∈ deferred' ↔ i ∈ deferred) ∧
      SameButFor a b (select (xs ++ [a, b] ++ ys)).selected
        (select (xs ++ [b, a] ++ ys)).selected ∧
      SameButFor a b (select (xs ++ [a, b] ++ ys)).remaining
        (select (xs ++ [b, a] ++ ys)).remaining := by
  obtain ⟨kept, deferred, hsplit, hselect⟩ := exists_isSplit (xs ++ [a, b] ++ ys)
  have hkept : ∀ i ∈ kept, i < xs.length + 2 + ys.length :=
    fun i hi => length_around a b xs ys ▸ hsplit.lt_of_mem_kept hi
  have hdeferred : ∀ i ∈ deferred, i < xs.length + 2 + ys.length :=
    fun i hi => length_around a b xs ys ▸ hsplit.lt_of_mem_deferred hi
  -- The exchanged list is the old one at other positions, and these keep every blocker in front of
  -- what it blocks, since the two do not block one another.
  have hsplit' := hsplit.restrict (retains_exchanged hfree hkept)
  have hselect' := hsplit.select_fixesAt (retains_exchanged hfree hkept)
  rw [fixesAt_exchanged] at hsplit' hselect'
  refine ⟨kept, deferred, _, _, ⟨hsplit, hselect⟩, ⟨hsplit', select_of_isSplit hsplit'⟩,
    swap_mem_indicesOf_iff hkept, swap_mem_indicesOf_iff hdeferred, ?_, ?_⟩
  · rw [hselect, hselect']
    exact sameButFor_fixesAt a b hsplit.kept_ordered hkept
  · rw [hselect, hselect']
    exact sameButFor_fixesAt a b hsplit.deferred_ordered hdeferred

/-- The fix behind the two reaches into both, and the last one into none. -/
theorem select_exchange_blocked :
    ¬ (Fix.single "a" ⟨0, 4, "x", 0⟩).Conflicts (.single "b" ⟨6, 3, "", 0⟩) ∧
    SameButFor (.single "a" ⟨0, 4, "x", 0⟩) (.single "b" ⟨6, 3, "", 0⟩)
      [.single "a" ⟨0, 4, "x", 0⟩, .single "b" ⟨6, 3, "", 0⟩, .single "d" ⟨9, 1, "z", 0⟩]
      (select [.single "b" ⟨6, 3, "", 0⟩, .single "a" ⟨0, 4, "x", 0⟩, .single "c" ⟨2, 6, "y", 0⟩,
        .single "d" ⟨9, 1, "z", 0⟩]).selected := by
  have hfree : ¬ (Fix.single "a" ⟨0, 4, "x", 0⟩).Conflicts (.single "b" ⟨6, 3, "", 0⟩) := by
    decide
  obtain ⟨_, _, _, _, _, _, _, _, hselected, _⟩ := select_exchange hfree []
    [.single "c" ⟨2, 6, "y", 0⟩, .single "d" ⟨9, 1, "z", 0⟩]
  exact ⟨hfree, hselected⟩

end LintRepair.Selection
