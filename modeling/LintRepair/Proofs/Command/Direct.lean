import Mathlib.Data.List.Basic
import Mathlib.Tactic.Common
import LintRepair.Proofs.Command.Groups
import LintRepair.Proofs.Repair.InPlace
import LintRepair.Proofs.Report.RoundTrip

/-!
# Repairing the sources themselves

A run with direct output writes each repair in the place of its source.  Its groups read and write
one after the other, but no two of them are found at one place, so every group still finds there
what the run began with.  Hence each group does on the tree it is handed what it would do alone on
the first tree (`entry_applyGroup_direct`), and by induction the run as a whole leaves at every
place what one group alone leaves there (`applyGroups_direct`).

What a run has changed before a group is content of files only, so that all walks, and with them all
errors, stay the same: the trees have one outline.
-/

namespace LintRepair.Command

variable {settings : Settings} {root : Path} {tree now : Tree} {failures : List Failure}
  {group : FileGroup} {groups : List FileGroup} {place : Location} {repair : Repair}
  {source : String}

/-! ## One group -/

theorem persist_direct (hfree : tree.LinkFree) (hmodified : repair.isModified source) :
    persist tree repair source root .direct =
      match tree.replacedPlace (root.join (Path.ofText repair.file)) with
      | .ok place =>
          ⟨tree.set place (.file (.text repair.content)
              ((tree.mode? (root.join (Path.ofText repair.file))).getD Tree.newFileMode)),
            .ok (.written (root.join (Path.ofText repair.file)))⟩
      | .error error => ⟨tree, .error (.io (root.join (Path.ofText repair.file)) error)⟩ := by
  rw [persist_of_modified hfree root .direct hmodified]
  dsimp only [persistTarget, prepareTarget]
  cases tree.replacedPlace (root.join (Path.ofText repair.file)) with
  | ok place => rfl
  | error error => rfl

theorem result_persist_direct (hfree : tree.LinkFree) (h : now.SameOutline tree) :
    (persist now repair source root .direct).result =
      (persist tree repair source root .direct).result := by
  cases hmodified : repair.isModified source with
  | false => rw [persist_unmodified _ hmodified, persist_unmodified _ hmodified]
  | true =>
      rw [persist_direct hfree hmodified, persist_direct (h.symm.linkFree hfree) hmodified,
        h.replacedPlace_eq]
      cases tree.replacedPlace (root.join (Path.ofText repair.file)) with
      | ok place => rfl
      | error error => rfl

/-- Writing a repair where its source was read leaves the repaired text there if it succeeds. -/
theorem entry_persist_direct (hfree : tree.LinkFree) (hroot : root.IsCanonical) {mode : Nat}
    (hlocate : tree.locate (root.join (Path.ofText repair.file)) = .ok place)
    (hentry : tree.entry? place = some (.file (.text source) mode)) :
    Tree.entry? (persist tree repair source root .direct).tree place =
      match (persist tree repair source root .direct).result with
      | .error _ => tree.entry? place
      | .ok _ => some (.file (.text repair.content) mode) := by
  have habsolute := hroot.isDescent.isAbsolute_join repair.file
  cases hmodified : repair.isModified source with
  | false =>
      have hsource : repair.content = source :=
        Repair.isModified_eq_false_iff.mp hmodified
      rw [persist_unmodified _ hmodified, hsource]
      exact hentry
  | true =>
      -- Without links the path leads to the place that the new file takes.
      rw [persist_direct hfree hmodified, Tree.mode_of_locate hlocate hentry]
      cases hreplaced : tree.replacedPlace (root.join (Path.ofText repair.file)) with
      | error error => rfl
      | ok target =>
          have htarget := Tree.eq_place_of_replacedPlace hfree habsolute hreplaced
          obtain rfl : target = place :=
            htarget.trans (Tree.eq_place_of_locate hfree habsolute hlocate).symm
          exact Tree.entry_set_self (Tree.ne_directory_of_replacedPlace hreplaced).1

theorem result_writeRepair_direct (hfree : tree.LinkFree) (houtput : settings.output = .direct)
    (h : now.SameOutline tree) :
    (writeRepair settings root now source repair).result =
      (writeRepair settings root tree source repair).result := by
  unfold writeRepair
  rw [houtput]
  split
  · exact result_persist_direct hfree h
  · rfl

/-- The outcome of a group depends on the outline and on the file of the group. -/
theorem outcome_applyGroup_direct (hfree : tree.LinkFree) (houtput : settings.output = .direct)
    (h : now.SameOutline tree)
    (hsame : ∀ place, now.locate (group.path root) = .ok place →
      now.entry? place = tree.entry? place) :
    (applyGroup settings root now group).outcome =
      (applyGroup settings root tree group).outcome := by
  -- The ways out of a group depend on what is read, on what is made of it, and on the outline.
  have hreadNow := h.readText_eq hsame
  cases hread : tree.readText (group.path root) with
  | error error =>
      rw [applyGroup_of_unreadable hread, applyGroup_of_unreadable (hreadNow.trans hread)]
  | ok source =>
  cases hrepair : settings.method.repair group.file source group.failures with
  | error error =>
      rw [applyGroup_of_refused hread hrepair,
        applyGroup_of_refused (hreadNow.trans hread) hrepair]
  | ok repair =>
      rw [outcome_applyGroup_of_repaired hread hrepair,
        outcome_applyGroup_of_repaired (hreadNow.trans hread) hrepair,
        result_writeRepair_direct hfree houtput h]

/-- A group leaves the tree alone, or it has read the file at its place and puts another there. -/
theorem applyGroup_direct_cases (hfree : tree.LinkFree) (hroot : root.IsCanonical)
    (houtput : settings.output = .direct) (group : FileGroup) :
    ((applyGroup settings root tree group).outcome.isWritten = false ∧
      (applyGroup settings root tree group).tree = tree) ∨
    ∃ place source mode repair target,
      tree.locate (group.path root) = .ok place ∧ place ≠ [] ∧
      tree.entry? place = some (.file (.text source) mode) ∧
      (applyGroup settings root tree group).outcome = .repaired repair (.written target) ∧
      (applyGroup settings root tree group).tree =
        tree.set place (.file (.text repair.content) mode) := by
  -- The tree is left alone on each way out but the last one: not read, not repaired, no method that
  -- writes, no change, not written.
  cases hread : tree.readText (group.path root) with
  | error error =>
      rw [applyGroup_of_unreadable hread]
      exact Or.inl ⟨rfl, rfl⟩
  | ok source =>
  cases hrepair : settings.method.repair group.file source group.failures with
  | error error =>
      rw [applyGroup_of_refused hread hrepair]
      exact Or.inl ⟨rfl, rfl⟩
  | ok repair =>
  rw [tree_applyGroup_of_repaired hread hrepair, outcome_applyGroup_of_repaired hread hrepair]
  unfold writeRepair
  cases settings.method.writesContent with
  | false => exact Or.inl ⟨rfl, rfl⟩
  | true =>
  rw [if_pos rfl, houtput]
  cases hmodified : repair.isModified source with
  | false =>
      rw [persist_unmodified _ hmodified]
      exact Or.inl ⟨rfl, rfl⟩
  | true =>
  have htarget : root.join (Path.ofText repair.file) = group.path root := by
    rw [Method.file_repair hrepair]
    rfl
  rw [persist_direct hfree hmodified, htarget]
  cases hreplaced : tree.replacedPlace (group.path root) with
  | error error => exact Or.inl ⟨rfl, rfl⟩
  | ok place =>
      -- What was read is what is replaced: both are where the text of the path leads.
      obtain ⟨found, mode, hlocate, hentry⟩ := Tree.readText_eq_ok_iff.mp hread
      have habsolute := isAbsolute_path hroot group
      have hplace := Tree.eq_place_of_replacedPlace hfree habsolute hreplaced
      have hne := (Tree.ne_directory_of_replacedPlace hreplaced).1
      obtain rfl : found = place :=
        (Tree.eq_place_of_locate hfree habsolute hlocate).trans hplace.symm
      rw [Tree.mode_of_locate hlocate hentry]
      exact Or.inr ⟨found, source, mode, repair, _, hlocate, hne, hentry, rfl, rfl⟩

theorem sameOutline_applyGroup_direct (hfree : tree.LinkFree) (hroot : root.IsCanonical)
    (houtput : settings.output = .direct) :
    (applyGroup settings root tree group).tree.SameOutline tree := by
  rcases applyGroup_direct_cases hfree hroot houtput group with
    ⟨-, htree⟩ | ⟨place, source, mode, repair, target, -, hne, hentry, -, htree⟩
  · rw [htree]
    exact Tree.SameOutline.refl tree
  · rw [htree]
    exact Tree.sameOutline_set hne hentry

/-- A group changes nothing but the place where it is found. -/
theorem entry_applyGroup_of_ne (hfree : tree.LinkFree) (hroot : root.IsCanonical)
    (houtput : settings.output = .direct) (hplace : tree.locate (group.path root) ≠ .ok place) :
    Tree.entry? (applyGroup settings root tree group).tree place = tree.entry? place := by
  rcases applyGroup_direct_cases hfree hroot houtput group with
    ⟨-, htree⟩ | ⟨found, source, mode, repair, target, hlocate, -, -, -, htree⟩
  · rw [htree]
  · rw [htree]
    refine Tree.entry_set_of_ne fun heq => hplace ?_
    rw [heq, hlocate]

/-- At its own place a group leaves what it would leave there alone. -/
theorem entry_applyGroup_direct (hfree : tree.LinkFree) (hroot : root.IsCanonical)
    (houtput : settings.output = .direct) (h : now.SameOutline tree)
    (hlocate : tree.locate (group.path root) = .ok place)
    (hsame : now.entry? place = tree.entry? place) :
    Tree.entry? (applyGroup settings root now group).tree place =
      Tree.entry? (applyGroup settings root tree group).tree place := by
  have houtcome : (applyGroup settings root now group).outcome =
      (applyGroup settings root tree group).outcome := by
    refine outcome_applyGroup_direct hfree houtput h fun found hfound => ?_
    rw [h.locate_eq, hlocate, Except.ok.injEq] at hfound
    exact hfound ▸ hsame
  -- As the outcomes are equal, the file is written on both trees or on neither.
  rcases applyGroup_direct_cases (h.symm.linkFree hfree) hroot houtput group with
    ⟨hnow, htreeNow⟩ |
    ⟨placeNow, _, modeNow, repairNow, _, hlocateNow, hneNow, hentryNow, hnow, htreeNow⟩
  · rcases applyGroup_direct_cases hfree hroot houtput group with
      ⟨-, htree⟩ | ⟨_, _, _, _, _, -, -, -, hwritten, -⟩
    · rw [htreeNow, htree, hsame]
    · rw [houtcome, hwritten] at hnow
      exact absurd hnow (by simp [FileOutcome.isWritten])
  · rcases applyGroup_direct_cases hfree hroot houtput group with
      ⟨hunwritten, -⟩ | ⟨found, source, mode, repair, target, hfound, hne, hentry, hwritten, htree⟩
    · rw [← houtcome, hnow] at hunwritten
      exact absurd hunwritten (by simp [FileOutcome.isWritten])
    · rw [h.locate_eq, hlocate, Except.ok.injEq] at hlocateNow
      rw [hlocate, Except.ok.injEq] at hfound
      subst hlocateNow hfound
      rw [houtcome, hwritten, FileOutcome.repaired.injEq] at hnow
      rw [hsame, hentry, Option.some.injEq, Entry.file.injEq] at hentryNow
      rw [htreeNow, htree, Tree.entry_set_self hne, Tree.entry_set_self hne, hnow.1, hentryNow.2]

/-! ## All groups -/

/-- A group leaves the outline, and the files of the groups after it as they were. -/
theorem fresh_applyGroup_direct (hfree : tree.LinkFree) (hroot : root.IsCanonical)
    (houtput : settings.output = .direct) (h : now.SameOutline tree)
    (hdistinct : (group :: groups).Pairwise fun group other => ∀ place,
      tree.locate (group.path root) = .ok place → tree.locate (other.path root) ≠ .ok place)
    (hfresh : ∀ other ∈ group :: groups, ∀ place, tree.locate (other.path root) = .ok place →
      now.entry? place = tree.entry? place) :
    (applyGroup settings root now group).tree.SameOutline tree ∧
      ∀ other ∈ groups, ∀ place, tree.locate (other.path root) = .ok place →
        Tree.entry? (applyGroup settings root now group).tree place = tree.entry? place := by
  have hfreeNow : now.LinkFree := h.symm.linkFree hfree
  refine ⟨(sameOutline_applyGroup_direct hfreeNow hroot houtput).trans h, ?_⟩
  intro other hother place hlocate
  rw [List.pairwise_cons] at hdistinct
  have hplace : now.locate (group.path root) ≠ .ok place := by
    rw [h.locate_eq]
    exact fun hgroup => hdistinct.1 other hother place hgroup hlocate
  rw [entry_applyGroup_of_ne hfreeNow hroot houtput hplace]
  exact hfresh other (List.mem_cons_of_mem _ hother) place hlocate

/-- Every group of a run does what it does alone: it has the same outcome and leaves the same entry
at the place where it is found.  Nothing else changes. -/
theorem applyGroups_direct (hfree : tree.LinkFree) (hroot : root.IsCanonical)
    (houtput : settings.output = .direct) (h : now.SameOutline tree)
    (hdistinct : groups.Pairwise fun group other => ∀ place,
      tree.locate (group.path root) = .ok place → tree.locate (other.path root) ≠ .ok place)
    (hfresh : ∀ group ∈ groups, ∀ place, tree.locate (group.path root) = .ok place →
      now.entry? place = tree.entry? place) :
    (applyGroups settings root now groups).map FileRun.outcome =
        groups.map (fun group => (applyGroup settings root tree group).outcome) ∧
      (∀ group ∈ groups, ∀ place, tree.locate (group.path root) = .ok place →
        Tree.entry? (finalTree now (applyGroups settings root now groups)) place =
          Tree.entry? (applyGroup settings root tree group).tree place) ∧
      ∀ place, (∀ group ∈ groups, tree.locate (group.path root) ≠ .ok place) →
        Tree.entry? (finalTree now (applyGroups settings root now groups)) place =
          now.entry? place := by
  -- Induction on the groups that are left; the tree handed on stays fresh where they are found.
  induction groups generalizing now with
  | nil => exact ⟨rfl, fun group hgroup => absurd hgroup List.not_mem_nil, fun place _ => rfl⟩
  | cons first rest ih =>
      obtain ⟨hnext, hfreshNext⟩ :=
        fresh_applyGroup_direct hfree hroot houtput h hdistinct hfresh
      rw [List.pairwise_cons] at hdistinct
      obtain ⟨houtcomes, hrest, hnone⟩ := ih hnext hdistinct.2 hfreshNext
      have hother : ∀ place, tree.locate (first.path root) ≠ .ok place →
          Tree.entry? (applyGroup settings root now first).tree place = now.entry? place := by
        intro place hplace
        rw [← h.locate_eq] at hplace
        exact entry_applyGroup_of_ne (h.symm.linkFree hfree) hroot houtput hplace
      have houtcome : (applyGroup settings root now first).outcome =
          (applyGroup settings root tree first).outcome := by
        refine outcome_applyGroup_direct hfree houtput h fun place hlocate => ?_
        rw [h.locate_eq] at hlocate
        exact hfresh first List.mem_cons_self place hlocate
      have hfirst : ∀ place, tree.locate (first.path root) = .ok place →
          Tree.entry? (applyGroup settings root now first).tree place =
            Tree.entry? (applyGroup settings root tree first).tree place := fun place hlocate =>
        entry_applyGroup_direct hfree hroot houtput h hlocate
          (hfresh first List.mem_cons_self place hlocate)
      rw [applyGroups, finalTree_cons, List.map_cons, List.map_cons, houtcomes, houtcome]
      refine ⟨rfl, ?_, ?_⟩
      · rw [List.forall_mem_cons]
        refine ⟨fun place hlocate => ?_, hrest⟩
        rw [hnone place fun group hgroup => hdistinct.1 group hgroup place hlocate]
        exact hfirst place hlocate
      · intro place hplace
        rw [List.forall_mem_cons] at hplace
        rw [hnone place hplace.2, hother place hplace.1]

/-! ## The whole run -/

/-- What there is at a place after the failures that name it have been repaired in place: the
repaired text, if the file there can be read, repaired and written, and what there was before if
not. -/
def entryAfterRepair (tree : Tree) (root : Path) (place : Location) (failures : List Failure) :
    Option Entry :=
  let file := nameFrom root place.path
  let path := root.join (Path.ofText file)
  match tree.readText path with
  | .error _ => tree.entry? place
  | .ok source =>
      match InPlace.repair file source failures with
      | .error _ => tree.entry? place
      | .ok repair =>
          match (persist tree repair source root .direct).result with
          | .error _ => tree.entry? place
          | .ok _ =>
              some (.file (.text repair.content) ((tree.mode? path).getD Tree.newFileMode))

theorem entry_applyGroup_inPlace (hfree : tree.LinkFree) (hroot : root.IsCanonical)
    (houtput : settings.output = .direct) (hmethod : settings.method = .inPlace)
    (hfile : group.file = nameFrom root place.path)
    (hlocate : tree.locate (group.path root) = .ok place) :
    Tree.entry? (applyGroup settings root tree group).tree place =
      entryAfterRepair tree root place group.failures := by
  have hpath : root.join (Path.ofText (nameFrom root place.path)) = group.path root := by
    rw [← hfile]
    rfl
  unfold entryAfterRepair
  dsimp only
  rw [hpath, ← hfile]
  -- Both sides read the same path and go on from there in the same way.
  cases hread : tree.readText (group.path root) with
  | error error => rw [applyGroup_of_unreadable hread]
  | ok source =>
  dsimp only
  cases hrepair : InPlace.repair group.file source group.failures with
  | error error =>
      have hmade : settings.method.repair group.file source group.failures = .error error := by
        rw [hmethod]
        exact hrepair
      rw [applyGroup_of_refused hread hmade]
  | ok repair =>
  -- What remains is that the repair is written where its source was read.
  have hmade : settings.method.repair group.file source group.failures = .ok repair := by
    rw [hmethod]
    exact hrepair
  have hwrite : writeRepair settings root tree source repair =
      persist tree repair source root .direct := by
    unfold writeRepair
    rw [hmethod, houtput]
    rfl
  obtain ⟨found, mode, hfound, hentry⟩ := Tree.readText_eq_ok_iff.mp hread
  obtain rfl : found = place := Except.ok.inj (hfound.symm.trans hlocate)
  have htarget : root.join (Path.ofText repair.file) = group.path root := by
    rw [Method.file_repair hmade]
    rfl
  rw [tree_applyGroup_of_repaired hread hmade, hwrite, Tree.mode_of_locate hlocate hentry]
  exact entry_persist_direct hfree hroot (htarget ▸ hlocate) hentry

/-- Nothing is repaired at a place that is not found under its own name. -/
theorem entryAfterRepair_of_locate_ne (hfree : tree.LinkFree) (hroot : root.IsCanonical)
    (hproper : place.IsProper)
    (hlocate : tree.locate (root.join (Path.ofText (nameFrom root place.path))) ≠ .ok place) :
    entryAfterRepair tree root place failures = tree.entry? place := by
  have hnamed : namedPlace root (nameFrom root place.path) = place := by
    rw [← Path.rising_zero]
    exact hroot.isDescent.namedPlace_nameFrom hproper 0
  unfold entryAfterRepair
  dsimp only
  cases hread : tree.readText (root.join (Path.ofText (nameFrom root place.path))) with
  | error error => rfl
  | ok source =>
      obtain ⟨found, mode, hfound, -⟩ := Tree.readText_eq_ok_iff.mp hread
      -- Reading would have found the file at its own place, which was excluded.
      have hplace := Tree.eq_place_of_locate hfree (hroot.isDescent.isAbsolute_join _) hfound
      rw [hplace] at hfound
      exact absurd (hfound.trans (congrArg Except.ok hnamed)) hlocate

/-- A file that is found has its group, and the group has all failures that name the file. -/
theorem exists_group_of_locate (hfree : tree.LinkFree) (hroot : root.IsCanonical)
    {failure : Failure} (hfailure : failure ∈ failures.filter settings.accepts)
    (hplace : namedPlace root failure.file = place)
    (hlocate : tree.locate (root.join (Path.ofText (nameFrom root place.path))) = .ok place) :
    ∃ group ∈ acceptedGroups settings root tree failures, group.file = nameFrom root place.path ∧
      group.failures = (failures.filter settings.accepts).filter fun other =>
        namedPlace root other.file = place := by
  have hpartition := isStablePartition_acceptedGroups settings root tree failures
  -- All spellings of a place that is found have one name, which is the name of a group.
  have hname : resolveFileName tree root failure.file = nameFrom root place.path :=
    (resolveFileName_eq_iff hfree hroot hlocate).mpr hplace
  have hmem : nameFrom root place.path ∈
      (acceptedGroups settings root tree failures).map FileGroup.file :=
    (hpartition.mem_file_iff _).mpr (List.mem_map.mpr ⟨failure, hfailure, hname⟩)
  obtain ⟨group, hgroup, hfile⟩ := List.mem_map.mp hmem
  refine ⟨group, hgroup, hfile, ?_⟩
  rw [hpartition.failures_eq group hgroup, hfile]
  refine List.filter_congr fun other _ => decide_eq_decide.mpr ?_
  exact resolveFileName_eq_iff hfree hroot hlocate

theorem applyGroups_acceptedGroups (hfree : tree.LinkFree) (hroot : root.IsCanonical)
    (houtput : settings.output = .direct) (hmethod : settings.method = .inPlace)
    (failures : List Failure) :
    (∀ failure ∈ failures.filter settings.accepts, ∀ place, namedPlace root failure.file = place →
      Tree.entry? (finalTree tree (applyGroups settings root tree
          (acceptedGroups settings root tree failures))) place =
        entryAfterRepair tree root place
          ((failures.filter settings.accepts).filter fun other =>
            namedPlace root other.file = place)) ∧
    ∀ place, (∀ failure ∈ failures.filter settings.accepts, namedPlace root failure.file ≠ place) →
      Tree.entry? (finalTree tree (applyGroups settings root tree
          (acceptedGroups settings root tree failures))) place = tree.entry? place := by
  obtain ⟨-, hfound, hnone⟩ := applyGroups_direct hfree hroot houtput (Tree.SameOutline.refl tree)
    (pairwise_locate_path hfree hroot) fun group _ place _ => rfl
  constructor
  · intro failure hfailure place hplace
    -- Either the place is found and has a group, or no group has anything to do with it.
    by_cases hlocate :
        tree.locate (root.join (Path.ofText (nameFrom root place.path))) = .ok place
    · obtain ⟨group, hgroup, hfile, hgroupFailures⟩ :=
        exists_group_of_locate hfree hroot hfailure hplace hlocate
      have hpath : tree.locate (group.path root) = .ok place := by
        unfold FileGroup.path
        rw [hfile]
        exact hlocate
      rw [hfound group hgroup place hpath, ← hgroupFailures]
      exact entry_applyGroup_inPlace hfree hroot houtput hmethod hfile hpath
    · -- Nothing is found under the name of the place, so there is nothing that a group could do.
      rw [entryAfterRepair_of_locate_ne hfree hroot
        (hplace ▸ hroot.isDescent.isProper_namedPlace failure.file) hlocate]
      refine hnone place fun group hgroup hpath => hlocate ?_
      rw [← file_eq_of_locate_path hfree hroot hgroup hpath]
      exact hpath
  · intro place hplace
    refine hnone place fun group hgroup hlocate => ?_
    obtain ⟨failure, hfailure, -, hnamed⟩ := exists_failure_of_mem hfree hroot hgroup
    refine hplace failure hfailure ?_
    rw [hnamed]
    exact (Tree.eq_place_of_locate hfree (isAbsolute_path hroot group) hlocate).symm

/-- Two failures that spell one file in two ways. -/
def twoSpellings : List Failure := [
  .clamped "src/../a.ts" "semi" 9 9 "" .error [.single "semi" ⟨9, 0, ";", 0⟩],
  .clamped "./a.ts" "const" 0 3 "" .error [.single "const" ⟨0, 3, "const", 0⟩]]

/-- A directory with one file. -/
def workshop : Tree where
  entries := [(["p"], .directory), (["p", "a.ts"], .file (.text "let x = 1") 0o644)]

theorem apply_twoSpellings :
    Patch.apply "let x = 1" (InPlace.chosen twoSpellings) = .ok "const x = 1;" := by
  have hchosen : InPlace.chosen twoSpellings = [⟨9, 0, ";", 0⟩, ⟨0, 3, "const", 0⟩] := by decide
  have horder : Patch.applicationOrder [⟨9, 0, ";", 0⟩, ⟨0, 3, "const", 0⟩] =
      [⟨9, 0, ";", 0⟩, ⟨0, 3, "const", 0⟩] := by
    unfold Patch.applicationOrder
    rw [List.mergeSort_of_pairwise (by decide)]
    rfl
  rw [hchosen]
  unfold Patch.apply Patch.check
  rw [horder]
  decide

theorem entryAfterRepair_twoSpellings :
    entryAfterRepair workshop (Location.path ["p"]) ["p", "a.ts"] twoSpellings =
      some (.file (.text "const x = 1;") 0o644) := by
  have hname : nameFrom (Location.path ["p"]) (Location.path ["p", "a.ts"]) = "a.ts" := by decide
  have hpath : (Location.path ["p"]).join (Path.ofText "a.ts") = ⟨["", "p", "a.ts"]⟩ := by decide
  have hread : workshop.readText ⟨["", "p", "a.ts"]⟩ = .ok "let x = 1" := by decide
  have hrepair : InPlace.repair "a.ts" "let x = 1" twoSpellings =
      .ok (InPlace.repaired "a.ts" twoSpellings "const x = 1;") :=
    InPlace.repair_of_apply_eq_ok apply_twoSpellings
  unfold entryAfterRepair
  simp only [hname, hpath, hread, hrepair]
  rw [persist_direct (Tree.linkFree_of_entries (by decide)) (by decide)]
  decide

end LintRepair.Command
