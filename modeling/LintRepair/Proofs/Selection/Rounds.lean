import LintRepair.Proofs.Selection.Related

/-!
# Retrying what was deferred

People are told to run again while fixes remain, so a selection is followed by one among the fixes
that it deferred, and so on until nothing is left.  This file says what all these calls together
do: they hand out the candidates to rounds by first fit.

The calls are followed by position.  `Rounds` is the whole run over the positions that are still
waiting; each call splits the fixes at these positions as a selection does, and
`IsSplit.positionsAt_perm` says that no waiting position is lost or doubled on the way.

* **The run ends.**  The first waiting candidate has nobody before it that could block it, so every
  call leaves less to do (`IsSplit.length_deferred_lt`), and `exists_rounds` is an induction on the
  number of positions that wait.
* **The run is first fit.**  A candidate of a later round has been deferred by every call before,
  because of a candidate before it that this call selected (`IsFirstFit.call`).

`IsFirstFit.unique` shows that nothing more needs to be said: the rounds are determined by that.
-/

namespace LintRepair.Selection

variable {candidates : List Fix} {pending kept deferred indices : List Nat}
  {rounds : List (List Nat)} {i k : Nat}

/-- The fixes that are left after so many calls, each of which is given what the one before has
deferred. -/
def leftAfter (candidates : List Fix) : Nat → List Fix
  | 0 => candidates
  | calls + 1 => (select (leftAfter candidates calls)).remaining

theorem leftAfter_succ (candidates : List Fix) (calls : Nat) :
    leftAfter candidates (calls + 1) = leftAfter (select candidates).remaining calls := by
  induction calls with
  | zero => rfl
  | succ calls ih =>
      calc leftAfter candidates (calls + 1 + 1)
          = (select (leftAfter candidates (calls + 1))).remaining := rfl
        _ = (select (leftAfter (select candidates).remaining calls)).remaining := by rw [ih]
        _ = leftAfter (select candidates).remaining (calls + 1) := rfl

/-! ## One call -/

theorem positionsAt_pairwise (hpending : pending.Pairwise (· < ·))
    (hindices : indices.Pairwise (· < ·)) : (positionsAt pending indices).Pairwise (· < ·) := by
  unfold positionsAt
  rw [List.pairwise_filterMap]
  refine hindices.imp ?_
  intro m n hlt i hi j hj
  exact pairwise_getElem? hpending hlt hi hj

theorem filterMap_getElem?_range {α : Type} (items : List α) :
    ((List.range items.length).filterMap fun n => items[n]?) = items := by
  induction items using List.reverseRecOn with
  | nil => rfl
  | append_singleton front last ih =>
      have hfront : ((List.range front.length).filterMap fun n => (front ++ [last])[n]?) =
          (List.range front.length).filterMap fun n => front[n]? :=
        List.filterMap_congr fun n hn => List.getElem?_append_left (List.mem_range.mp hn)
      rw [List.length_append, List.length_singleton, List.range_succ, List.filterMap_append, hfront,
        ih]
      simp

/-- A split names every position once. -/
theorem IsSplit.perm_range (h : IsSplit candidates kept deferred) :
    (kept ++ deferred).Perm (List.range candidates.length) := by
  have hnodup : (kept ++ deferred).Nodup := by
    refine List.nodup_append.mpr ⟨h.kept_ordered.imp Nat.ne_of_lt,
      h.deferred_ordered.imp Nat.ne_of_lt, ?_⟩
    intro i hi j hj hij
    exact h.apart i hi (hij ▸ hj)
  refine (List.perm_ext_iff_of_nodup hnodup List.nodup_range).mpr fun i => ?_
  rw [List.mem_append, List.mem_range, h.mem_or_mem_iff]

/-- A call hands out each waiting position, to its round or to those that follow. -/
theorem IsSplit.positionsAt_perm (h : IsSplit (fixesAt candidates pending) kept deferred)
    (hbound : ∀ i ∈ pending, i < candidates.length) :
    (positionsAt pending kept ++ positionsAt pending deferred).Perm pending := by
  have happend : positionsAt pending (kept ++ deferred) =
      positionsAt pending kept ++ positionsAt pending deferred := List.filterMap_append
  have hall : positionsAt pending (List.range (fixesAt candidates pending).length) = pending := by
    rw [length_fixesAt hbound, positionsAt, filterMap_getElem?_range]
  rw [← happend]
  exact (h.perm_range.filterMap _).trans (List.Perm.of_eq hall)

/-- A call selects something as long as a fix is left. -/
theorem IsSplit.positionsAt_kept_ne_nil (h : IsSplit (fixesAt candidates pending) kept deferred)
    (hbound : ∀ i ∈ pending, i < candidates.length) (hsome : pending ≠ []) :
    positionsAt pending kept ≠ [] := by
  have hpos : 0 < pending.length := List.length_pos_of_ne_nil hsome
  have hfirst : 0 ∈ kept := by
    rcases (h.mem_or_mem_iff 0).mpr ((length_fixesAt hbound).symm ▸ hpos) with hkept | hdeferred
    · exact hkept
    · -- There is nobody before the first one.
      obtain ⟨i, _, hlt, _⟩ := h.blocked 0 hdeferred
      omega
  have hmem : pending[0] ∈ positionsAt pending kept :=
    mem_positionsAt.mpr ⟨0, hfirst, List.getElem?_eq_getElem hpos⟩
  exact List.ne_nil_of_mem hmem

/-- So there is less to do for the calls that follow. -/
theorem IsSplit.length_deferred_lt (h : IsSplit (fixesAt candidates pending) kept deferred)
    (hbound : ∀ i ∈ pending, i < candidates.length) (hsome : pending ≠ []) :
    (positionsAt pending deferred).length < pending.length := by
  have hselected : 0 < (positionsAt pending kept).length :=
    List.length_pos_of_ne_nil (h.positionsAt_kept_ne_nil hbound hsome)
  have hall := (h.positionsAt_perm hbound).length_eq
  rw [List.length_append] at hall
  omega

/-! ## All calls -/

/-- Positions that wait for a call: they stand in candidate order. -/
structure IsWaiting (candidates : List Fix) (pending : List Nat) : Prop where
  ordered : pending.Pairwise (· < ·)
  bound : ∀ i ∈ pending, i < candidates.length

theorem isWaiting_range (candidates : List Fix) :
    IsWaiting candidates (List.range candidates.length) :=
  ⟨List.pairwise_lt_range, fun _ => List.mem_range.mp⟩

theorem IsWaiting.afterCall (h : IsWaiting candidates pending)
    (hsplit : IsSplit (fixesAt candidates pending) kept deferred) :
    IsWaiting candidates (positionsAt pending deferred) where
  ordered := positionsAt_pairwise h.ordered hsplit.deferred_ordered
  bound i hi := by
    obtain ⟨n, _, hn⟩ := mem_positionsAt.mp hi
    exact h.bound i (List.mem_of_getElem? hn)

/-- The calls that are made while the positions `pending` wait, as lists of the positions that each
of them selects. -/
inductive Rounds (candidates : List Fix) : List Nat → List (List Nat) → Prop
  | done : Rounds candidates [] []
  | call {pending kept deferred : List Nat} {rounds : List (List Nat)} (hsome : pending ≠ [])
      (hsplit : IsSplit (fixesAt candidates pending) kept deferred)
      (hrest : Rounds candidates (positionsAt pending deferred) rounds) :
      Rounds candidates pending (positionsAt pending kept :: rounds)

/-- Rounds that are filled first come, first served: every position of `pending` goes into the first
round in which no earlier position is in its way. -/
structure IsFirstFit (candidates : List Fix) (pending : List Nat) (rounds : List (List Nat)) :
    Prop where
  nonempty : ∀ round ∈ rounds, round ≠ []
  /-- Every round is in candidate order. -/
  ordered : ∀ round ∈ rounds, round.Pairwise (· < ·)
  /-- Every position is in one round. -/
  each_once : rounds.flatten.Perm pending
  /-- No two candidates of a round conflict. -/
  compatible : ∀ round ∈ rounds, ∀ i ∈ round, ∀ j ∈ round, i ≠ j → ¬ ConflictAt candidates i j
  /-- In every earlier round, a candidate before it is in the way. -/
  blocked : rounds.Pairwise fun earlier later =>
    ∀ j ∈ later, ∃ i ∈ earlier, i < j ∧ ConflictAt candidates i j

theorem isFirstFit_nil (candidates : List Fix) : IsFirstFit candidates [] [] where
  nonempty := by simp
  ordered := by simp
  each_once := .nil
  compatible := by simp
  blocked := .nil

/-- One more call in front. -/
theorem IsFirstFit.call (hwaiting : IsWaiting candidates pending) (hsome : pending ≠ [])
    (hsplit : IsSplit (fixesAt candidates pending) kept deferred)
    (hrest : IsFirstFit candidates (positionsAt pending deferred) rounds) :
    IsFirstFit candidates pending (positionsAt pending kept :: rounds) where
  nonempty := List.forall_mem_cons.mpr
    ⟨hsplit.positionsAt_kept_ne_nil hwaiting.bound hsome, hrest.nonempty⟩
  ordered := List.forall_mem_cons.mpr
    ⟨positionsAt_pairwise hwaiting.ordered hsplit.kept_ordered, hrest.ordered⟩
  each_once := by
    rw [List.flatten_cons]
    exact (hrest.each_once.append_left _).trans (hsplit.positionsAt_perm hwaiting.bound)
  compatible := by
    refine List.forall_mem_cons.mpr ⟨?_, hrest.compatible⟩
    intro i hi j hj hne
    obtain ⟨m, hm, hmi⟩ := mem_positionsAt.mp hi
    obtain ⟨n, hn, hnj⟩ := mem_positionsAt.mp hj
    rw [← conflictAt_fixesAt hwaiting.bound hmi hnj]
    refine hsplit.compatible m hm n hn fun hmn => hne ?_
    rw [hmn, hnj] at hmi
    exact (Option.some.inj hmi).symm
  blocked := by
    refine List.pairwise_cons.mpr ⟨?_, hrest.blocked⟩
    intro later hlater j hj
    -- Whoever is selected later has been deferred by this call.
    have hdeferred : j ∈ positionsAt pending deferred :=
      hrest.each_once.subset (List.mem_flatten.mpr ⟨later, hlater, hj⟩)
    obtain ⟨n, hn, hnj⟩ := mem_positionsAt.mp hdeferred
    obtain ⟨m, hm, hmn, hconflict⟩ := hsplit.blocked n hn
    have hlt : m < pending.length := by
      have := hsplit.lt_of_mem_kept hm
      rwa [length_fixesAt hwaiting.bound] at this
    have hmi : pending[m]? = some pending[m] := List.getElem?_eq_getElem hlt
    exact ⟨pending[m], mem_positionsAt.mpr ⟨m, hm, hmi⟩,
      pairwise_getElem? hwaiting.ordered hmn hmi hnj,
      (conflictAt_fixesAt hwaiting.bound hmi hnj).mp hconflict⟩

theorem Rounds.isFirstFit (h : Rounds candidates pending rounds)
    (hwaiting : IsWaiting candidates pending) : IsFirstFit candidates pending rounds := by
  induction h with
  | done => exact isFirstFit_nil candidates
  | call hsome hsplit _ ih => exact (ih (hwaiting.afterCall hsplit)).call hwaiting hsome hsplit

/-- The calls come to an end. -/
theorem exists_rounds (h : IsWaiting candidates pending) :
    ∃ rounds, Rounds candidates pending rounds := by
  induction hlength : pending.length using Nat.strongRecOn generalizing pending with
  | ind length ih =>
      by_cases hsome : pending = []
      · exact ⟨[], hsome ▸ .done⟩
      · obtain ⟨kept, deferred, hsplit, _⟩ := exists_isSplit (fixesAt candidates pending)
        have hless := hsplit.length_deferred_lt h.bound hsome
        obtain ⟨rounds, hrounds⟩ := ih _ (hlength ▸ hless) (h.afterCall hsplit) rfl
        exact ⟨_, .call hsome hsplit hrounds⟩

/-- There are no more calls than candidates. -/
theorem Rounds.length_le (h : Rounds candidates pending rounds)
    (hwaiting : IsWaiting candidates pending) : rounds.length ≤ pending.length := by
  induction h with
  | done => exact Nat.le_refl 0
  | call hsome hsplit _ ih =>
      have hrest := ih (hwaiting.afterCall hsplit)
      have hless := hsplit.length_deferred_lt hwaiting.bound hsome
      rw [List.length_cons]
      omega

/-! ## What the calls return -/

/-- What a call leaves are the fixes at the positions that wait for the next one. -/
theorem IsSplit.select_waiting (h : IsSplit (fixesAt candidates pending) kept deferred)
    (hbound : ∀ i ∈ pending, i < candidates.length) :
    select (fixesAt candidates pending) =
      ⟨fixesAt candidates (positionsAt pending kept),
        fixesAt candidates (positionsAt pending deferred)⟩ := by
  rw [select_of_isSplit h, fixesAt_fixesAt hbound, fixesAt_fixesAt hbound]

theorem Rounds.leftAfter_length (h : Rounds candidates pending rounds)
    (hwaiting : IsWaiting candidates pending) :
    leftAfter (fixesAt candidates pending) rounds.length = [] := by
  induction h with
  | done => rfl
  | call _ hsplit _ ih =>
      rw [List.length_cons, leftAfter_succ, hsplit.select_waiting hwaiting.bound]
      exact ih (hwaiting.afterCall hsplit)

theorem Rounds.selected_leftAfter (h : Rounds candidates pending rounds)
    (hwaiting : IsWaiting candidates pending) {round : List Nat}
    (hround : rounds[k]? = some round) :
    (select (leftAfter (fixesAt candidates pending) k)).selected = fixesAt candidates round := by
  induction h generalizing k with
  | done => cases hround
  | call _ hsplit _ ih =>
      cases k with
      | zero =>
          rw [List.getElem?_cons_zero, Option.some.injEq] at hround
          rw [leftAfter, hsplit.select_waiting hwaiting.bound, hround]
      | succ k =>
          rw [List.getElem?_cons_succ] at hround
          rw [leftAfter_succ, hsplit.select_waiting hwaiting.bound]
          exact ih (hwaiting.afterCall hsplit) hround

/-! ## First fit -/

/-- The first rounds agree on a position as soon as they agree on all before it. -/
theorem IsFirstFit.mem_head_of_agree {first first' : List Nat} {rounds' : List (List Nat)}
    (h : IsFirstFit candidates pending (first :: rounds))
    (h' : IsFirstFit candidates pending (first' :: rounds'))
    (hbefore : ∀ j < i, j ∈ first ↔ j ∈ first') (hi : i ∈ first) : i ∈ first' := by
  have hmem : i ∈ (first' :: rounds').flatten := by
    refine h'.each_once.symm.subset (h.each_once.subset ?_)
    exact List.mem_flatten.mpr ⟨first, List.mem_cons_self, hi⟩
  obtain ⟨round, hround, hiround⟩ := List.mem_flatten.mp hmem
  rcases List.mem_cons.mp hround with rfl | hlater
  · exact hiround
  · -- In a later round, it would be blocked by one of the first round.
    obtain ⟨b, hb, hlt, hconflict⟩ := (List.pairwise_cons.mp h'.blocked).1 round hlater i hiround
    have hbfirst := (hbefore b hlt).mpr hb
    exact absurd hconflict
      (h.compatible first List.mem_cons_self b hbfirst i hi (Nat.ne_of_lt hlt))

theorem IsFirstFit.mem_head_iff {first first' : List Nat} {rounds' : List (List Nat)}
    (h : IsFirstFit candidates pending (first :: rounds))
    (h' : IsFirstFit candidates pending (first' :: rounds')) (i : Nat) :
    i ∈ first ↔ i ∈ first' := by
  induction i using Nat.strongRecOn with
  | ind i ih =>
      exact ⟨h.mem_head_of_agree h' ih, h'.mem_head_of_agree h fun j hj => (ih j hj).symm⟩

/-- The rounds but the first are first fit for the positions that are in them. -/
theorem IsFirstFit.tail {first : List Nat} (h : IsFirstFit candidates pending (first :: rounds)) :
    IsFirstFit candidates rounds.flatten rounds where
  nonempty := (List.forall_mem_cons.mp h.nonempty).2
  ordered := (List.forall_mem_cons.mp h.ordered).2
  each_once := .refl _
  compatible := (List.forall_mem_cons.mp h.compatible).2
  blocked := (List.pairwise_cons.mp h.blocked).2

theorem IsFirstFit.of_perm {pending' : List Nat} (h : IsFirstFit candidates pending rounds)
    (hperm : pending.Perm pending') : IsFirstFit candidates pending' rounds :=
  { h with each_once := h.each_once.trans hperm }

theorem IsFirstFit.eq_nil (h : IsFirstFit candidates [] rounds) : rounds = [] := by
  cases rounds with
  | nil => rfl
  | cons first rounds =>
      have hnone := List.perm_nil.mp h.each_once
      rw [List.flatten_cons, List.append_eq_nil_iff] at hnone
      exact absurd hnone.1 (h.nonempty first List.mem_cons_self)

/-- First fit leaves no choice. -/
theorem IsFirstFit.unique {rounds' : List (List Nat)} (h : IsFirstFit candidates pending rounds)
    (h' : IsFirstFit candidates pending rounds') : rounds' = rounds := by
  induction rounds generalizing pending rounds' with
  | nil => exact (h'.of_perm h.each_once.symm).eq_nil
  | cons first rounds ih =>
      cases rounds' with
      | nil => exact (h.of_perm h'.each_once.symm).eq_nil.symm
      | cons first' rounds' =>
          have hfirst : first' = first :=
            (h'.ordered first' List.mem_cons_self).eq_of_mem_iff
              (h.ordered first List.mem_cons_self) (h'.mem_head_iff h)
          subst hfirst
          have hrest : rounds'.flatten.Perm rounds.flatten := by
            have hall := h'.each_once.trans h.each_once.symm
            rwa [List.flatten_cons, List.flatten_cons, List.perm_append_left_iff] at hall
          rw [ih h.tail (h'.tail.of_perm hrest)]

/-- Selecting again and again among what was deferred ends with nothing left, after no more calls
than there are candidates.  The calls are first fit: they select every candidate once, none of the
same call conflict, and whoever is selected later conflicts, for each call before, with a candidate
before it that this call has selected. -/
theorem retries_are_first_fit (candidates : List Fix) :
    ∃ rounds, Rounds candidates (List.range candidates.length) rounds ∧
      (∀ k round, rounds[k]? = some round →
        (select (leftAfter candidates k)).selected = fixesAt candidates round) ∧
      leftAfter candidates rounds.length = [] ∧
      rounds.length ≤ candidates.length ∧
      IsFirstFit candidates (List.range candidates.length) rounds ∧
      ∀ others, IsFirstFit candidates (List.range candidates.length) others → others = rounds := by
  have hwaiting := isWaiting_range candidates
  have hcandidates : fixesAt candidates (List.range candidates.length) = candidates :=
    filterMap_getElem?_range candidates
  obtain ⟨rounds, hrounds⟩ := exists_rounds hwaiting
  have hfirstFit := hrounds.isFirstFit hwaiting
  have hselected : ∀ k round, rounds[k]? = some round →
      (select (leftAfter candidates k)).selected = fixesAt candidates round := by
    intro k round hround
    have hcall := hrounds.selected_leftAfter hwaiting hround
    rwa [hcandidates] at hcall
  have hnone := hrounds.leftAfter_length hwaiting
  have hlength := hrounds.length_le hwaiting
  rw [hcandidates] at hnone
  rw [List.length_range] at hlength
  exact ⟨rounds, hrounds, hselected, hnone, hlength, hfirstFit, fun others => hfirstFit.unique⟩

/-- Of three fixes that overlap in a chain, the first and the last go together. -/
example : leftAfter [.single "a" ⟨0, 4, "x", 0⟩, .single "b" ⟨2, 6, "y", 0⟩,
    .single "c" ⟨6, 3, "z", 0⟩] 1 = [.single "b" ⟨2, 6, "y", 0⟩] := by
  decide

end LintRepair.Selection
