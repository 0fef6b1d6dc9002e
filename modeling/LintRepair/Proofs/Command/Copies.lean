import Mathlib.Data.List.Basic
import Mathlib.Tactic.Common
import LintRepair.Proofs.Command.Groups
import LintRepair.Proofs.Repair.InPlace
import LintRepair.Proofs.Report.RoundTrip

/-!
# Writing copies

A run that writes copies changes the places of the copies and makes directories where nothing was
(`persist_copy`), and it does nothing else however many groups it has.  So a file keeps its
content if no copy goes to its place.  Nothing keeps a copy away from a source: a directory for
copies may be the root directory itself, or hold sources of its own.  If it happens, a later group
may read a copy for its source.
-/

namespace LintRepair.Command

variable {settings : Settings} {root : Path} {tree now : Tree} {failures : List Failure}
  {group : FileGroup} {groups : List FileGroup} {place : Location} {repair : Repair}
  {source dir file : String} {off : Location → Prop}

/-- The place where the copy of a file would be put. -/
def copyPlace? (root : Path) (dir file : String) : Option Location :=
  ((persistTarget root (Path.ofText file) (.copy (Path.ofText dir))).toOption).map Path.place

/-! ## One copy -/

theorem isAbsolute_persistTarget_copy (hroot : root.IsCanonical) {path target : Path}
    (htarget : persistTarget root path (.copy (Path.ofText dir)) = .ok target) :
    target.isAbsolute := by
  obtain ⟨inside, hinside, htarget⟩ := FirstError.bind_eq_ok_iff.mp htarget
  have hpieces : inside.pieces ≠ [] := by
    unfold copyPath at hinside
    split at hinside
    · exact absurd hinside (by simp)
    dsimp only at hinside
    split at hinside
    · rw [← Except.ok.inj hinside]
      exact Path.pieces_ofComponents_ne_nil _
    · exact absurd hinside (by simp)
  rw [← Except.ok.inj htarget]
  exact Path.isAbsolute_join (hroot.isDescent.isAbsolute_join dir) hpieces

theorem persist_copy (hfree : tree.LinkFree) (hroot : root.IsCanonical) :
    (persist tree repair source root (.copy (Path.ofText dir))).tree.LinkFree ∧
      tree.KeepsOff (fun place => copyPlace? root dir repair.file = some place)
        (persist tree repair source root (.copy (Path.ofText dir))).tree := by
  rcases persist_cases hfree repair source root (.copy (Path.ofText dir)) with
    ⟨-, hpersist⟩ | ⟨error, hpersist⟩ | ⟨target, htarget, hends⟩
  · rw [hpersist]
    exact ⟨hfree, Tree.KeepsOff.refl tree⟩
  · rw [hpersist]
    exact ⟨hfree, Tree.KeepsOff.refl tree⟩
  -- The directories that are made on the way stay even if the copy fails.
  have hadds := addsDirectories_prepareTarget hfree target (.copy (Path.ofText dir))
  have hfreePrepared := hadds.linkFree hfree
  rcases hends with ⟨path, cause, hpersist⟩ | ⟨place, mode, hreplaced, -, hpersist⟩
  · rw [hpersist]
    exact ⟨hfreePrepared, hadds.keepsOff⟩
  · have hplace := Tree.eq_place_of_replacedPlace hfreePrepared
      (isAbsolute_persistTarget_copy hroot htarget) hreplaced
    have hne := (Tree.ne_directory_of_replacedPlace hreplaced).1
    have hcopy : copyPlace? root dir repair.file = some place := by
      unfold copyPlace?
      rw [htarget, hplace]
      rfl
    rw [hpersist]
    exact ⟨Tree.linkFree_set hfreePrepared (by simp) hne,
      hadds.keepsOff.trans (Tree.keepsOff_set hcopy)⟩

/-- A group changes nothing but the place of its copy and what leads there. -/
theorem applyGroup_copy (hfree : tree.LinkFree) (hroot : root.IsCanonical)
    (houtput : settings.output = .copy (Path.ofText dir)) (group : FileGroup) :
    (applyGroup settings root tree group).tree.LinkFree ∧
      tree.KeepsOff (fun place => copyPlace? root dir group.file = some place)
        (applyGroup settings root tree group).tree := by
  cases hread : tree.readText (group.path root) with
  | error error =>
      rw [applyGroup_of_unreadable hread]
      exact ⟨hfree, Tree.KeepsOff.refl tree⟩
  | ok source =>
  cases hrepair : settings.method.repair group.file source group.failures with
  | error error =>
      rw [applyGroup_of_refused hread hrepair]
      exact ⟨hfree, Tree.KeepsOff.refl tree⟩
  | ok repair =>
  rw [tree_applyGroup_of_repaired hread hrepair]
  unfold writeRepair
  split
  · rw [houtput, ← Method.file_repair hrepair]
    exact persist_copy hfree hroot
  · exact ⟨hfree, Tree.KeepsOff.refl tree⟩

/-! ## The whole run -/

/-- The places where a run would put copies. -/
def IsCopyPlace (tree : Tree) (root : Path) (dir : String) (accepted : List Failure)
    (place : Location) : Prop :=
  ∃ failure ∈ accepted, copyPlace? root dir (resolveFileName tree root failure.file) = some place

/-- A run is nowhere but at the places of its copies and above them, and so is the tree on which a
group starts. -/
theorem applyGroups_copy (hfree : tree.LinkFree) (hroot : root.IsCanonical)
    (houtput : settings.output = .copy (Path.ofText dir)) (failures : List Failure) :
    let groups := acceptedGroups settings root tree failures
    let off := IsCopyPlace tree root dir (failures.filter settings.accepts)
    tree.KeepsOff off (finalTree tree (applyGroups settings root tree groups)) ∧
      ∀ run ∈ applyGroups settings root tree groups, ∃ group ∈ groups, ∃ now : Tree,
        now.LinkFree ∧ tree.KeepsOff off now ∧ run = applyGroup settings root now group := by
  intro groups off
  -- The invariant of the run: no links, and no change but at copies and above them.
  have hstep : ∀ group ∈ groups, ∀ now : Tree, now.LinkFree ∧ tree.KeepsOff off now →
      (applyGroup settings root now group).tree.LinkFree ∧
        tree.KeepsOff off (applyGroup settings root now group).tree := by
    rintro group hgroup now ⟨hfreeNow, hkeeps⟩
    obtain ⟨failure, hfailure, hname, -⟩ := exists_failure_of_mem hfree hroot hgroup
    obtain ⟨hfreeNext, hnext⟩ := applyGroup_copy hfreeNow hroot houtput group
    refine ⟨hfreeNext, hkeeps.trans (hnext.mono fun place hplace => ⟨failure, hfailure, ?_⟩)⟩
    rw [hname]
    exact hplace
  obtain ⟨⟨-, hfinal⟩, hruns⟩ :=
    applyGroups_induction (P := fun now => now.LinkFree ∧ tree.KeepsOff off now)
      ⟨hfree, Tree.KeepsOff.refl tree⟩ hstep
  refine ⟨hfinal, fun run hrun => ?_⟩
  obtain ⟨group, hgroup, now, ⟨hfreeNow, hkeeps⟩, hrun⟩ := hruns run hrun
  exact ⟨group, hgroup, now, hfreeNow, hkeeps, hrun⟩

/-- A run that writes copies.  If a report cannot be loaded nothing changes.  Otherwise a file stays
what it was if no copy goes to its place.  So if none goes to a place that accepted failures name,
the sources stay, and every repair is made of what its source held before the run. -/
theorem runReports_copy_keeps_sources (environment : Environment) (filter : Log.Filter)
    (tree : Tree) (setup : Setup) (request : Request) (dir : String) (hfree : tree.LinkFree)
    (hroot : setup.root.IsCanonical) (hverb : request.verb = .apply)
    (houtput : setup.settings.output = .copy (Path.ofText dir)) :
    let after := (runReports environment filter tree setup request).tree
    (∀ error, Report.load tree environment.input request.options.reports = .error error →
      after = tree) ∧
    ∀ failures, Report.load tree environment.input request.options.reports = .ok failures →
      let accepted := failures.filter setup.settings.accepts
      let groups := acceptedGroups setup.settings setup.root tree failures
      let copied := IsCopyPlace tree setup.root dir accepted
      (∀ place content mode, ¬ copied place → tree.entry? place = some (.file content mode) →
        after.entry? place = some (.file content mode)) ∧
      ((∀ failure ∈ accepted, ¬ copied (namedPlace setup.root failure.file)) →
        (∀ failure ∈ accepted, ∀ content mode,
          after.entry? (namedPlace setup.root failure.file) = some (.file content mode) ↔
            tree.entry? (namedPlace setup.root failure.file) = some (.file content mode)) ∧
        ∀ run ∈ applyGroups setup.settings setup.root tree groups, ∀ repair persisted,
          run.outcome = .repaired repair persisted →
            ∃ group ∈ groups, ∃ source mode,
              tree.entry? (namedPlace setup.root group.file) = some (.file (.text source) mode) ∧
              setup.settings.method.repair group.file source group.failures = .ok repair) := by
  intro after
  refine ⟨?_, ?_⟩
  · intro error hload
    exact tree_runReports_of_error hload
  · intro failures hload accepted groups copied
    have hafter : after = finalTree tree (applyGroups setup.settings setup.root tree groups) :=
      tree_runReports_apply hverb hload
    obtain ⟨hfinal, hruns⟩ := applyGroups_copy hfree hroot houtput failures
    rw [hafter]
    refine ⟨fun place content mode hplace hfile => hfinal.file_eq hplace hfile, fun hapart => ?_⟩
    constructor
    · -- No copy goes to a source, so a file there was there before, and stays.
      intro failure hfailure content mode
      have hplace := hapart failure hfailure
      exact ⟨fun hfile => hfinal.eq_of_file hplace hfile, fun hfile => hfinal.file_eq hplace hfile⟩
    · -- The source that a group has read in its turn is the one at its place, which is no copy.
      intro run hrun repair persisted houtcome
      obtain ⟨group, hgroup, now, hfreeNow, hkeeps, hgroupRun⟩ := hruns run hrun
      rw [hgroupRun] at houtcome
      obtain ⟨source, hread, hrepair⟩ := exists_of_outcome_repaired houtcome
      obtain ⟨found, mode, hlocate, hentry⟩ := Tree.readText_eq_ok_iff.mp hread
      have hplace : found = namedPlace setup.root group.file :=
        Tree.eq_place_of_locate hfreeNow (isAbsolute_path hroot group) hlocate
      obtain ⟨failure, hfailure, -, hnamed⟩ := exists_failure_of_mem hfree hroot hgroup
      rw [hplace] at hentry
      have hsource : ¬ copied (namedPlace setup.root group.file) :=
        hnamed ▸ hapart failure hfailure
      exact ⟨group, hgroup, source, mode, hkeeps.eq_of_file hsource hentry, hrepair⟩

/-- Two sources, one of them in a directory `fixes`. -/
def nestedSources : Tree where
  entries := [(["p"], .directory), (["p", "a.ts"], .file (.text "let x = 1") 0o644),
    (["p", "fixes"], .directory), (["p", "fixes", "a.ts"], .file (.text "old text 9") 0o600)]

def outerFailure : Failure :=
  .clamped "a.ts" "const" 0 3 "" .error [.single "const" ⟨0, 3, "const", 0⟩]

def innerFailure : Failure :=
  .clamped "fixes/a.ts" "semi" 9 9 "" .error [.single "semi" ⟨9, 0, ";", 0⟩]

theorem load_nested :
    Report.load nestedSources (.ok (Report.render [outerFailure, innerFailure]))
      [Report.standardInput] = .ok [outerFailure, innerFailure] := by
  have hnone : nestedSources.locate Report.standardInput = .error .notFound := by decide
  exact Report.load_standardInput hnone _

theorem runReports_copy_keeps_sources_apart :
    let after := (runReports { input := .ok (Report.render [outerFailure, innerFailure]) }
      (.upTo .info) nestedSources
      ⟨Location.path ["p"], { output := .copy (Path.ofText "out") }, .builtIn⟩
      ⟨.apply, { reports := [Report.standardInput] }⟩).tree
    after.entry? ["p", "a.ts"] = some (.file (.text "let x = 1") 0o644) ∧
      after.entry? ["p", "fixes", "a.ts"] = some (.file (.text "old text 9") 0o600) := by
  have hroot : (Location.path ["p"]).IsCanonical := by
    refine ⟨["p"], fun name hname => ?_, rfl⟩
    rw [List.mem_singleton.mp hname]
    exact ⟨by decide, by decide, by decide, by decide⟩
  obtain ⟨-, hloaded⟩ := runReports_copy_keeps_sources
    { input := .ok (Report.render [outerFailure, innerFailure]) } (.upTo .info) nestedSources
    ⟨Location.path ["p"], { output := .copy (Path.ofText "out") }, .builtIn⟩
    ⟨.apply, { reports := [Report.standardInput] }⟩ "out"
    (Tree.linkFree_of_entries (by decide)) hroot rfl rfl
  obtain ⟨-, hapart⟩ := hloaded _ load_nested
  obtain ⟨hsame, -⟩ := hapart (by unfold IsCopyPlace; decide)
  constructor
  · exact (hsame outerFailure (by decide) _ _).mpr (by decide)
  · exact (hsame innerFailure (by decide) _ _).mpr (by decide)

/-! ## A source among the copies -/

/-- The sources after a copy of the first one has been put in the place of the second. -/
def overwrittenSources : Tree where
  entries := [(["p"], .directory), (["p", "a.ts"], .file (.text "let x = 1") 0o644),
    (["p", "fixes"], .directory), (["p", "fixes", "a.ts"], .file (.text "const x = 1") 0o644)]

def toFixes : Settings where
  output := .copy (Path.ofText "fixes")

theorem tree_applyGroup_outer :
    (applyGroup toFixes (Location.path ["p"]) nestedSources ⟨"a.ts", [outerFailure]⟩).tree =
      overwrittenSources := by
  have hread : nestedSources.readText
      (FileGroup.path (Location.path ["p"]) ⟨"a.ts", [outerFailure]⟩) = .ok "let x = 1" := by
    decide
  have happly : Patch.apply "let x = 1" (InPlace.chosen [outerFailure]) = .ok "const x = 1" := by
    have hchosen : InPlace.chosen [outerFailure] = [⟨0, 3, "const", 0⟩] := by decide
    rw [hchosen]
    unfold Patch.apply Patch.check
    rw [Patch.applicationOrder_singleton]
    decide
  have hrepair : toFixes.method.repair "a.ts" "let x = 1" [outerFailure] =
      .ok (InPlace.repaired "a.ts" [outerFailure] "const x = 1") :=
    InPlace.repair_of_apply_eq_ok happly
  rw [tree_applyGroup_of_repaired hread hrepair]
  rfl

theorem tree_applyGroup_inner :
    Tree.entry? (applyGroup toFixes (Location.path ["p"]) overwrittenSources
        ⟨"fixes/a.ts", [innerFailure]⟩).tree ["p", "fixes", "a.ts"] =
      some (.file (.text "const x = 1") 0o644) ∧
    Tree.entry? (applyGroup toFixes (Location.path ["p"]) overwrittenSources
        ⟨"fixes/a.ts", [innerFailure]⟩).tree ["p", "fixes", "fixes", "a.ts"] =
      some (.file (.text "const x =; 1") 0o644) := by
  have hread : overwrittenSources.readText
      (FileGroup.path (Location.path ["p"]) ⟨"fixes/a.ts", [innerFailure]⟩) =
        .ok "const x = 1" := by
    decide
  have happly : Patch.apply "const x = 1" (InPlace.chosen [innerFailure]) =
      .ok "const x =; 1" := by
    have hchosen : InPlace.chosen [innerFailure] = [⟨9, 0, ";", 0⟩] := by decide
    rw [hchosen]
    unfold Patch.apply Patch.check
    rw [Patch.applicationOrder_singleton]
    decide
  have hrepair : toFixes.method.repair "fixes/a.ts" "const x = 1" [innerFailure] =
      .ok (InPlace.repaired "fixes/a.ts" [innerFailure] "const x =; 1") :=
    InPlace.repair_of_apply_eq_ok happly
  rw [tree_applyGroup_of_repaired hread hrepair]
  exact ⟨by rfl, by rfl⟩

theorem runReports_copy_overwrites_source :
    Tree.entry? nestedSources ["p", "fixes", "a.ts"] = some (.file (.text "old text 9") 0o600) ∧
    let after := (runReports { input := .ok (Report.render [outerFailure, innerFailure]) }
      (.upTo .info) nestedSources ⟨Location.path ["p"], toFixes, .builtIn⟩
      ⟨.apply, { reports := [Report.standardInput] }⟩).tree
    after.entry? ["p", "fixes", "a.ts"] = some (.file (.text "const x = 1") 0o644) ∧
      after.entry? ["p", "fixes", "fixes", "a.ts"] = some (.file (.text "const x =; 1") 0o644) := by
  refine ⟨by decide, ?_⟩
  intro after
  have hgroups : acceptedGroups toFixes (Location.path ["p"]) nestedSources
      [outerFailure, innerFailure] =
        [⟨"a.ts", [outerFailure]⟩, ⟨"fixes/a.ts", [innerFailure]⟩] := by rfl
  have hafter : after = finalTree nestedSources (applyGroups toFixes (Location.path ["p"])
      nestedSources (acceptedGroups toFixes (Location.path ["p"]) nestedSources
        [outerFailure, innerFailure])) :=
    tree_runReports_apply rfl load_nested
  -- The first group puts its copy where the second one reads its source.
  rw [hafter, hgroups, applyGroups, finalTree_cons, tree_applyGroup_outer, applyGroups,
    finalTree_cons, applyGroups]
  exact tree_applyGroup_inner

end LintRepair.Command
