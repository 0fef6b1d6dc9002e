import Mathlib.Data.List.Basic
import Mathlib.Tactic.Common
import LintRepair.Command.Run
import LintRepair.Proofs.Persist.Steps
import LintRepair.Proofs.Report.Group
import LintRepair.Proofs.Report.Naming

/-!
# The groups of a run

A run goes through its groups one after the other and hands the tree on.  What holds for any output
is here.  A group stops at a file that cannot be read, stops at a repair that is refused, or writes
its repair; these three cases are all that later proofs know of `applyGroup`, and
`applyGroups_induction` carries what each group keeps through a run.

Each group is looked for at one path.  The file there is at the place that the failures of the group
name (`exists_failure_of_mem`), and two groups of a run are never found at one place
(`pairwise_locate_path`).
-/

namespace LintRepair

/-- The path at which a run looks for the file of a group. -/
def FileGroup.path (root : Path) (group : FileGroup) : Path :=
  root.join (Path.ofText group.file)

theorem Method.file_repair {method : Method} {file source : String} {failures : List Failure}
    {repair : Repair} (hrepair : method.repair file source failures = .ok repair) :
    repair.file = file := by
  cases method with
  | inPlace =>
      obtain ⟨content, -, hrepair⟩ := FirstError.bind_eq_ok_iff.mp hrepair
      rw [← Except.ok.inj hrepair]
  | diff =>
      obtain ⟨entries, -, hrepair⟩ := FirstError.bind_eq_ok_iff.mp hrepair
      rw [← Except.ok.inj hrepair]
  | off => rw [← Except.ok.inj hrepair]

namespace Command

variable {settings : Settings} {root : Path} {tree : Tree} {failures : List Failure}
  {group other : FileGroup} {groups : List FileGroup} {place : Location}

theorem finalTree_cons (tree : Tree) (run : FileRun) (runs : List FileRun) :
    finalTree tree (run :: runs) = finalTree run.tree runs := by
  unfold finalTree
  rw [List.getLast?_cons]
  cases runs.getLast? with
  | none => rfl
  | some last => rfl

/-! ## What a group can do -/

/-- What has become of a file when its repair has been written or could not be. -/
def FileOutcome.ofPersist (file : String) (repair : Repair) :
    Except PersistError Persisted → FileOutcome
  | .error error => .unwritten file error
  | .ok persisted => .repaired repair persisted

theorem FileOutcome.ofPersist_ne_unreadable {file other : String} {repair : Repair}
    {result : Except PersistError Persisted} {error : IoError} :
    FileOutcome.ofPersist file repair result ≠ .unreadable other error := by
  cases result <;> simp [FileOutcome.ofPersist]

theorem FileOutcome.ofPersist_ne_refused {file : String} {repair : Repair}
    {result : Except PersistError Persisted} {error : RepairError} :
    FileOutcome.ofPersist file repair result ≠ .refused error := by
  cases result <;> simp [FileOutcome.ofPersist]

section applyGroup

variable {source : String} {repair : Repair}

theorem applyGroup_of_unreadable {error : IoError}
    (hread : tree.readText (group.path root) = .error error) :
    applyGroup settings root tree group = ⟨tree, .unreadable group.file error, []⟩ := by
  unfold FileGroup.path at hread
  unfold applyGroup
  rw [hread]

theorem applyGroup_of_refused {error : RepairError}
    (hread : tree.readText (group.path root) = .ok source)
    (hrepair : settings.method.repair group.file source group.failures = .error error) :
    applyGroup settings root tree group =
      ⟨tree, .refused error, settings.method.events group.file source group.failures⟩ := by
  unfold FileGroup.path at hread
  unfold applyGroup
  rw [hread]
  simp only [hrepair]

theorem tree_applyGroup_of_repaired (hread : tree.readText (group.path root) = .ok source)
    (hrepair : settings.method.repair group.file source group.failures = .ok repair) :
    (applyGroup settings root tree group).tree =
      (writeRepair settings root tree source repair).tree := by
  unfold FileGroup.path at hread
  unfold applyGroup
  rw [hread]
  simp only [hrepair]
  split <;> rfl

theorem outcome_applyGroup_of_repaired (hread : tree.readText (group.path root) = .ok source)
    (hrepair : settings.method.repair group.file source group.failures = .ok repair) :
    (applyGroup settings root tree group).outcome =
      .ofPersist group.file repair (writeRepair settings root tree source repair).result := by
  unfold FileGroup.path at hread
  unfold applyGroup FileOutcome.ofPersist
  rw [hread]
  simp only [hrepair]
  cases (writeRepair settings root tree source repair).result with
  | error error => rfl
  | ok persisted => cases persisted <;> rfl

theorem exists_of_outcome_repaired {persisted : Persisted}
    (houtcome : (applyGroup settings root tree group).outcome = .repaired repair persisted) :
    ∃ source, tree.readText (group.path root) = .ok source ∧
      settings.method.repair group.file source group.failures = .ok repair := by
  cases hread : tree.readText (group.path root) with
  | error error =>
      rw [applyGroup_of_unreadable hread] at houtcome
      exact absurd houtcome (by simp)
  | ok source =>
  cases hrepair : settings.method.repair group.file source group.failures with
  | error error =>
      rw [applyGroup_of_refused hread hrepair] at houtcome
      exact absurd houtcome (by simp)
  | ok made =>
  rw [outcome_applyGroup_of_repaired hread hrepair] at houtcome
  refine ⟨source, rfl, ?_⟩
  cases hresult : (writeRepair settings root tree source made).result with
  | error error =>
      rw [hresult] at houtcome
      exact absurd houtcome (by simp [FileOutcome.ofPersist])
  | ok done =>
      rw [hresult] at houtcome
      rw [hrepair, (FileOutcome.repaired.inj houtcome).1]

end applyGroup

/-- A method that writes nothing leaves the tree. -/
theorem tree_applyGroup_of_not_writes (hwrites : settings.method.writesContent = false)
    (tree : Tree) (group : FileGroup) : (applyGroup settings root tree group).tree = tree := by
  cases hread : tree.readText (group.path root) with
  | error error => rw [applyGroup_of_unreadable hread]
  | ok source =>
      cases hrepair : settings.method.repair group.file source group.failures with
      | error error => rw [applyGroup_of_refused hread hrepair]
      | ok repair =>
          rw [tree_applyGroup_of_repaired hread hrepair]
          unfold writeRepair
          rw [hwrites, if_neg Bool.false_ne_true]

theorem finalTree_of_not_writes (hwrites : settings.method.writesContent = false) (tree : Tree)
    (groups : List FileGroup) : finalTree tree (applyGroups settings root tree groups) = tree := by
  induction groups with
  | nil => rfl
  | cons group rest ih =>
      rw [applyGroups, finalTree_cons, tree_applyGroup_of_not_writes hwrites, ih]

/-- What holds of the tree at first and is kept by every group holds at the end of a run, and of the
tree on which each group starts. -/
theorem applyGroups_induction {P : Tree → Prop} (hstart : P tree)
    (hstep : ∀ group ∈ groups, ∀ now, P now → P (applyGroup settings root now group).tree) :
    P (finalTree tree (applyGroups settings root tree groups)) ∧
      ∀ run ∈ applyGroups settings root tree groups,
        ∃ group ∈ groups, ∃ now, P now ∧ run = applyGroup settings root now group := by
  induction groups generalizing tree with
  | nil => exact ⟨hstart, fun run hrun => absurd hrun List.not_mem_nil⟩
  | cons first rest ih =>
      rw [List.forall_mem_cons] at hstep
      obtain ⟨hfinal, hruns⟩ := ih (hstep.1 tree hstart) hstep.2
      rw [applyGroups, finalTree_cons]
      refine ⟨hfinal, ?_⟩
      rw [List.forall_mem_cons]
      refine ⟨⟨first, List.mem_cons_self, tree, hstart, rfl⟩, fun run hrun => ?_⟩
      obtain ⟨group, hgroup, now, hnow, hrun⟩ := hruns run hrun
      exact ⟨group, List.mem_cons_of_mem _ hgroup, now, hnow, hrun⟩

/-! ## Where groups are found -/

theorem isAbsolute_path (hroot : root.IsCanonical) (group : FileGroup) :
    (group.path root).isAbsolute :=
  hroot.isDescent.isAbsolute_join group.file

theorem isCut_path (hroot : root.IsCanonical) (group : FileGroup) : (group.path root).IsCut :=
  hroot.isDescent.isCut_join group.file

theorem isStablePartition_acceptedGroups (settings : Settings) (root : Path) (tree : Tree)
    (failures : List Failure) :
    IsStablePartition (fun failure => resolveFileName tree root failure.file)
      (failures.filter settings.accepts) (acceptedGroups settings root tree failures) :=
  isStablePartition_groupByFile tree root (failures.filter settings.accepts)

/-- The file of a group is where each failure of the group says. -/
theorem exists_failure_of_mem (hfree : tree.LinkFree) (hroot : root.IsCanonical)
    (hgroup : group ∈ acceptedGroups settings root tree failures) :
    ∃ failure ∈ failures.filter settings.accepts,
      resolveFileName tree root failure.file = group.file ∧
        namedPlace root failure.file = namedPlace root group.file := by
  have hpartition := isStablePartition_acceptedGroups settings root tree failures
  obtain ⟨failure, hfailure, hname⟩ :=
    List.mem_map.mp ((hpartition.mem_file_iff _).mp (List.mem_map_of_mem hgroup))
  refine ⟨failure, hfailure, hname, ?_⟩
  have hname' : resolveFileName tree root failure.file = group.file := hname
  rw [← hname', namedPlace_resolveFileName hfree hroot]

/-- A group that is found somewhere has the name of that place. -/
theorem file_eq_of_locate_path (hfree : tree.LinkFree) (hroot : root.IsCanonical)
    (hgroup : group ∈ acceptedGroups settings root tree failures)
    (hlocate : tree.locate (group.path root) = .ok place) :
    group.file = nameFrom root place.path := by
  obtain ⟨failure, -, hname, hnamed⟩ := exists_failure_of_mem hfree hroot hgroup
  have hplace : place = namedPlace root failure.file := by
    rw [hnamed]
    exact Tree.eq_place_of_locate hfree (isAbsolute_path hroot group) hlocate
  rw [hplace] at hlocate ⊢
  rw [← hname]
  exact resolveFileName_eq hfree hroot (isAbsolute_path hroot group) (isCut_path hroot group)
    hlocate

/-- Two groups of a run are found at two places. -/
theorem pairwise_locate_path (hfree : tree.LinkFree) (hroot : root.IsCanonical) :
    (acceptedGroups settings root tree failures).Pairwise fun group other =>
      ∀ place, tree.locate (group.path root) = .ok place →
        tree.locate (other.path root) ≠ .ok place := by
  have hnodup := (isStablePartition_acceptedGroups settings root tree failures).nodup
  refine (List.pairwise_map.mp hnodup).imp_of_mem fun {group other} hgroup hother hne => ?_
  intro place hlocate hlocate'
  -- One place has one name, and the names of groups differ.
  refine hne ?_
  rw [file_eq_of_locate_path hfree hroot hgroup hlocate,
    file_eq_of_locate_path hfree hroot hother hlocate']

/-! ## Runs of reports -/

variable {environment : Environment} {filter : Log.Filter} {setup : Setup} {request : Request}

/-- A run that finds its root directory has a canonical path of it: the working directory has one,
and every other directory is made canonical. -/
theorem isCanonical_rootPath {options : Options} (hworking : tree.workingDirectory.IsProper)
    (hcut : ∀ path, options.root = some path → path.IsCut)
    (hroot : options.rootPath tree = .ok root) : root.IsCanonical := by
  unfold Options.rootPath at hroot
  cases hgiven : options.root with
  | none =>
      rw [hgiven, Except.ok.injEq] at hroot
      exact ⟨tree.workingDirectory, hworking, hroot.symm⟩
  | some path =>
      rw [hgiven] at hroot
      obtain ⟨place, hplace, hpath⟩ := Tree.exists_path_of_canonical
        (Tree.isProper_start hworking path) (hcut path hgiven)
        (FirstError.mapError_eq_ok_iff.mp hroot)
      exact ⟨place, hplace, hpath.symm⟩

theorem runReports_of_error {error : Report.LoadError}
    (hload : Report.load tree environment.input request.options.reports = .error error) :
    runReports environment filter tree setup request = .failed tree (.report error) := by
  unfold runReports
  rw [hload]

theorem tree_runReports_of_error {error : Report.LoadError}
    (hload : Report.load tree environment.input request.options.reports = .error error) :
    (runReports environment filter tree setup request).tree = tree := by
  rw [runReports_of_error hload]
  rfl

theorem runReports_apply (hverb : request.verb = .apply)
    (hload : Report.load tree environment.input request.options.reports = .ok failures) :
    runReports environment filter tree setup request =
      runApply environment filter tree setup (request.options.format.getD .text) failures := by
  unfold runReports
  rw [hload, hverb]

theorem runReports_check (hverb : request.verb = .check)
    (hload : Report.load tree environment.input request.options.reports = .ok failures) :
    runReports environment filter tree setup request =
      runCheck environment filter tree setup failures := by
  unfold runReports
  rw [hload, hverb]

theorem tree_runReports_apply (hverb : request.verb = .apply)
    (hload : Report.load tree environment.input request.options.reports = .ok failures) :
    (runReports environment filter tree setup request).tree =
      finalTree tree (applyGroups setup.settings setup.root tree
        (acceptedGroups setup.settings setup.root tree failures)) := by
  rw [runReports_apply hverb hload]
  rfl

end Command

end LintRepair
