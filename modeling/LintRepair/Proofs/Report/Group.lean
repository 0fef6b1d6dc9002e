import Mathlib.Data.List.Basic
import Mathlib.Data.List.Induction
import Mathlib.Tactic.Common
import LintRepair.Report.Group

/-!
# Groups partition the failures

Failures are put into groups one by one, each into the first group that has the name of its file, or
into a new group at the end.  `IsStablePartition` says what a list of groups has to be without
looking at how it grows: the names stand in the order of their first occurrence, and each group
holds the failures of its name in their order.  Adding one failure at the end of the input keeps all
of it at once (`IsStablePartition.insert`): that there is one group for a name at most is what makes
the first group with the name the right one, and it follows from the order of the names.
-/

namespace LintRepair

variable {name : Failure → String} {failures : List Failure} {groups front back : List FileGroup}
  {failure : Failure} {file : String}

/-! ## One more failure -/

namespace FileGroup

theorem insert_of_notMem (hnew : file ∉ groups.map FileGroup.file) :
    insert file failure groups = groups ++ [⟨file, [failure]⟩] := by
  induction groups with
  | nil => rfl
  | cons group groups ih =>
    rw [List.map_cons, List.mem_cons, not_or] at hnew
    rw [insert, if_neg (Ne.symm hnew.1), ih hnew.2, List.cons_append]

/-- A failure goes to the end of the first group with its name. -/
theorem insert_append {earlier : List Failure} (hfront : file ∉ front.map FileGroup.file) :
    insert file failure (front ++ ⟨file, earlier⟩ :: back) =
      front ++ ⟨file, earlier ++ [failure]⟩ :: back := by
  induction front with
  | nil => rw [List.nil_append, insert, if_pos rfl, List.nil_append]
  | cons group front ih =>
    rw [List.map_cons, List.mem_cons, not_or] at hfront
    rw [List.cons_append, insert, if_neg (Ne.symm hfront.1), ih hfront.2, List.cons_append]

/-- What the groups hold together grows by the failure. -/
theorem flatMap_insert_perm :
    ((insert file failure groups).flatMap FileGroup.failures).Perm
      (groups.flatMap FileGroup.failures ++ [failure]) := by
  induction groups with
  | nil => exact List.Perm.refl _
  | cons group groups ih =>
    rw [insert]
    split
    · rw [List.flatMap_cons, List.flatMap_cons, List.append_assoc, List.append_assoc]
      exact List.perm_append_comm.append_left group.failures
    · rw [List.flatMap_cons, List.flatMap_cons, List.append_assoc]
      exact ih.append_left group.failures

end FileGroup

/-! ## Partitions -/

/-- The groups hold the failures by their names, in stable order. -/
structure IsStablePartition (name : Failure → String) (failures : List Failure)
    (groups : List FileGroup) : Prop where
  /-- The names stand in the order in which they first occur. -/
  ordered : (groups.map FileGroup.file).Pairwise fun a b =>
    (failures.map name).idxOf a < (failures.map name).idxOf b
  /-- The names are those that occur. -/
  mem_file_iff : ∀ file, file ∈ groups.map FileGroup.file ↔ file ∈ failures.map name
  /-- Each group holds the failures of its name, in their order. -/
  failures_eq : ∀ group ∈ groups,
    group.failures = failures.filter fun failure => name failure = group.file

namespace IsStablePartition

theorem nodup (h : IsStablePartition name failures groups) :
    (groups.map FileGroup.file).Nodup := by
  refine h.ordered.imp fun {a b} hlt heq => ?_
  rw [heq] at hlt
  exact Nat.lt_irrefl _ hlt

theorem failures_ne_nil (h : IsStablePartition name failures groups) {group : FileGroup}
    (hgroup : group ∈ groups) : group.failures ≠ [] := by
  obtain ⟨failure, hfailure, hname⟩ :=
    List.mem_map.mp ((h.mem_file_iff _).mp (List.mem_map_of_mem hgroup))
  rw [h.failures_eq group hgroup]
  exact List.ne_nil_of_mem (List.mem_filter.mpr ⟨hfailure, decide_eq_true hname⟩)

/-- The names keep their order when the input grows. -/
theorem ordered_concat (h : IsStablePartition name failures groups) (failure : Failure) :
    (groups.map FileGroup.file).Pairwise fun a b =>
      ((failures ++ [failure]).map name).idxOf a < ((failures ++ [failure]).map name).idxOf b := by
  refine h.ordered.imp_of_mem fun {a b} ha hb hlt => ?_
  rw [List.map_append, List.idxOf_append_of_mem ((h.mem_file_iff a).mp ha),
    List.idxOf_append_of_mem ((h.mem_file_iff b).mp hb)]
  exact hlt

/-- A group of another name has nothing to do with one more failure. -/
theorem failures_eq_concat (h : IsStablePartition name failures groups) {group : FileGroup}
    (hgroup : group ∈ groups) (hne : name failure ≠ group.file) :
    group.failures = (failures ++ [failure]).filter fun f => name f = group.file := by
  rw [h.failures_eq group hgroup, List.filter_append, List.filter_singleton, decide_eq_false hne]
  simp

theorem insert_new (h : IsStablePartition name failures groups)
    (hnew : name failure ∉ groups.map FileGroup.file) :
    IsStablePartition name (failures ++ [failure]) (groups ++ [⟨name failure, [failure]⟩]) where
  ordered := by
    have hnames : (groups ++ [FileGroup.mk (name failure) [failure]]).map FileGroup.file =
        groups.map FileGroup.file ++ [name failure] := List.map_append
    rw [hnames, List.pairwise_append]
    refine ⟨h.ordered_concat failure, List.pairwise_singleton .., fun a ha b hb => ?_⟩
    rw [List.mem_singleton.mp hb]
    -- Known names come up among the old failures, the new one behind them.
    have hold : a ∈ failures.map name := (h.mem_file_iff a).mp ha
    have habsent : name failure ∉ failures.map name := fun hmem =>
      hnew ((h.mem_file_iff _).mpr hmem)
    rw [List.map_append, List.idxOf_append_of_mem hold, List.idxOf_append_of_notMem habsent]
    exact Nat.lt_of_lt_of_le (List.idxOf_lt_length_of_mem hold) (Nat.le_add_right ..)
  mem_file_iff file := by
    rw [List.map_append, List.map_append, List.mem_append, List.mem_append, h.mem_file_iff]
    rfl
  failures_eq group hgroup := by
    rcases List.mem_append.mp hgroup with hold | hlast
    · exact h.failures_eq_concat hold fun heq => hnew (heq ▸ List.mem_map_of_mem hold)
    · rw [List.mem_singleton.mp hlast]
      -- No failure so far has the new name.
      have hnone : failures.filter (fun f => name f = name failure) = [] := by
        refine List.filter_eq_nil_iff.mpr fun f hf heq => hnew ?_
        exact (h.mem_file_iff _).mpr (List.mem_map.mpr ⟨f, hf, of_decide_eq_true heq⟩)
      rw [List.filter_append, hnone]
      simp

theorem insert_old {earlier : List Failure}
    (h : IsStablePartition name failures (front ++ ⟨name failure, earlier⟩ :: back)) :
    IsStablePartition name (failures ++ [failure])
      (front ++ ⟨name failure, earlier ++ [failure]⟩ :: back) where
  ordered := by
    simpa using h.ordered_concat failure
  mem_file_iff file := by
    have hmem := h.mem_file_iff file
    simp only [List.map_append, List.map_cons, List.map_nil, List.mem_append,
      List.mem_singleton] at hmem ⊢
    rw [hmem]
    refine ⟨Or.inl, fun hor => hor.elim id fun heq => ?_⟩
    exact hmem.mp (Or.inr (heq ▸ List.mem_cons_self))
  failures_eq group hgroup := by
    -- The names before and behind the group are others.
    have hnodup := h.nodup
    rw [List.map_append, List.map_cons, List.nodup_append, List.nodup_cons] at hnodup
    obtain ⟨-, ⟨hback, -⟩, hfront⟩ := hnodup
    have hsame := h.failures_eq ⟨name failure, earlier⟩ (by simp)
    rcases List.mem_append.mp hgroup with hmem | hmem
    · refine h.failures_eq_concat (List.mem_append_left _ hmem) fun heq => ?_
      exact hfront _ (List.mem_map_of_mem hmem) _ List.mem_cons_self heq.symm
    · rcases List.mem_cons.mp hmem with rfl | hmem
      · rw [List.filter_append, ← hsame]
        simp
      · refine h.failures_eq_concat (by simp [hmem]) fun heq => hback ?_
        exact List.mem_map.mpr ⟨group, hmem, heq.symm⟩

/-- One more failure at the end of the input. -/
theorem insert (h : IsStablePartition name failures groups) (failure : Failure) :
    IsStablePartition name (failures ++ [failure])
      (FileGroup.insert (name failure) failure groups) := by
  by_cases hnew : name failure ∉ groups.map FileGroup.file
  · rw [FileGroup.insert_of_notMem hnew]
    exact h.insert_new hnew
  · -- The group found is the first one with the name.
    obtain ⟨⟨file, earlier⟩, hgroup, hfile⟩ := List.mem_map.mp (not_not.mp hnew)
    obtain ⟨front, back, rfl⟩ := List.append_of_mem hgroup
    subst hfile
    have hnodup := h.nodup
    rw [List.map_append, List.map_cons, List.nodup_append] at hnodup
    have hfront : name failure ∉ front.map FileGroup.file := fun hmem =>
      hnodup.2.2 _ hmem _ List.mem_cons_self rfl
    rw [FileGroup.insert_append hfront]
    exact h.insert_old

end IsStablePartition

/-! ## All failures -/

theorem groupByFile_concat (tree : Tree) (root : Path) (front : List Failure) (failure : Failure) :
    groupByFile tree root (front ++ [failure]) =
      FileGroup.insert (resolveFileName tree root failure.file) failure
        (groupByFile tree root front) := by
  unfold groupByFile
  rw [List.foldl_append]
  rfl

theorem isStablePartition_groupByFile (tree : Tree) (root : Path) (failures : List Failure) :
    IsStablePartition (fun failure => resolveFileName tree root failure.file) failures
      (groupByFile tree root failures) := by
  -- Failures are added at the end of what has been grouped, so they are taken off there.
  induction failures using List.reverseRecOn with
  | nil => constructor <;> simp [groupByFile]
  | append_singleton front failure ih =>
    rw [groupByFile_concat]
    exact ih.insert failure

/-- No failure is lost or doubled. -/
theorem flatMap_groupByFile_perm (tree : Tree) (root : Path) (failures : List Failure) :
    ((groupByFile tree root failures).flatMap FileGroup.failures).Perm failures := by
  induction failures using List.reverseRecOn with
  | nil => exact List.Perm.refl _
  | append_singleton front failure ih =>
    rw [groupByFile_concat]
    exact FileGroup.flatMap_insert_perm.trans (ih.append_right [failure])

/-- Choosing among groups by their names chooses among the failures by the same names. -/
theorem filter_flatMap_failures {keep : String → Bool}
    (hname : ∀ group ∈ groups, ∀ failure ∈ group.failures, name failure = group.file) :
    (groups.flatMap FileGroup.failures).filter (fun failure => keep (name failure)) =
      (groups.filter fun group => keep group.file).flatMap FileGroup.failures := by
  induction groups with
  | nil => rfl
  | cons group rest ih =>
      rw [List.forall_mem_cons] at hname
      have hsame : group.failures.filter (fun failure => keep (name failure)) =
          group.failures.filter fun _ => keep group.file :=
        List.filter_congr fun failure hfailure => by rw [hname.1 failure hfailure]
      rw [List.flatMap_cons, List.filter_append, ih hname.2, hsame, List.filter_cons]
      cases keep group.file with
      | true => rw [if_pos rfl, List.flatMap_cons, List.filter_true]
      | false => rw [if_neg Bool.false_ne_true, List.filter_false, List.nil_append]

/-- Groups that are chosen by their names hold the failures that are chosen by the same names. -/
theorem flatMap_filter_groupByFile_perm (tree : Tree) (root : Path) (failures : List Failure)
    (keep : String → Bool) :
    (((groupByFile tree root failures).filter fun group => keep group.file).flatMap
        FileGroup.failures).Perm
      (failures.filter fun failure => keep (resolveFileName tree root failure.file)) := by
  have hpartition := isStablePartition_groupByFile tree root failures
  have hname : ∀ group ∈ groupByFile tree root failures, ∀ failure ∈ group.failures,
      resolveFileName tree root failure.file = group.file := by
    intro group hgroup failure hfailure
    rw [hpartition.failures_eq group hgroup] at hfailure
    exact of_decide_eq_true (List.mem_filter.mp hfailure).2
  rw [← filter_flatMap_failures hname]
  exact (flatMap_groupByFile_perm tree root failures).filter _

/-- Grouping is a stable partition: the names of the groups differ and stand in the order in which
they first occur, each group holds exactly the failures of its name in their order and at least one,
and together the groups hold every failure as often as the input does. -/
theorem groupByFile_is_stable_partition (tree : Tree) (root : Path) (failures : List Failure) :
    ((groupByFile tree root failures).map FileGroup.file).Nodup ∧
    ((groupByFile tree root failures).map FileGroup.file).Pairwise (fun a b =>
      (failures.map fun failure => resolveFileName tree root failure.file).idxOf a <
        (failures.map fun failure => resolveFileName tree root failure.file).idxOf b) ∧
    (∀ file, file ∈ (groupByFile tree root failures).map FileGroup.file ↔
      ∃ failure ∈ failures, resolveFileName tree root failure.file = file) ∧
    (∀ group ∈ groupByFile tree root failures,
      group.failures =
          failures.filter (fun failure => resolveFileName tree root failure.file = group.file) ∧
        group.failures ≠ []) ∧
    ((groupByFile tree root failures).flatMap FileGroup.failures).Perm failures := by
  have hpartition := isStablePartition_groupByFile tree root failures
  refine ⟨hpartition.nodup, hpartition.ordered, ?_, ?_, flatMap_groupByFile_perm tree root failures⟩
  · intro file
    rw [hpartition.mem_file_iff, List.mem_map]
  · intro group hgroup
    exact ⟨hpartition.failures_eq group hgroup, hpartition.failures_ne_nil hgroup⟩

end LintRepair
