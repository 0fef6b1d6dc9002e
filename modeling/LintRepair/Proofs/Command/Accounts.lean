import Mathlib.Data.List.Forall2
import Mathlib.Data.List.Nodup
import Mathlib.Tactic.Common
import LintRepair.Proofs.Command.Direct
import LintRepair.Proofs.Command.Turns

/-!
# The accounts of a run

A run counts what it has done, and prints one result for every file that it has dealt with.  Both
are about the turns that do not fail, the *kept* ones: the results of a run are the repairs that
were made in them, one for each and in their order (`forall₂_results`), and what has been counted
file by file in the end is a number of them (`ofOutcomes_eq`).

Every failure with fixes has one fix that is applied or one that remains, so the numbers of applied
and of remaining fixes together count such failures in the kept groups.  As the groups partition the
accepted failures, this is a count of accepted failures (`countP_kept`), whatever mix of files
succeeds and fails.
-/

namespace LintRepair.Command

variable {settings : Settings} {root : Path} {tree : Tree} {failures : List Failure} {turn : Turn}
  {kept : List Turn} {results : List Repair} {repair : Repair} {source : String}

/-- The turns that do not fail. -/
def keptTurns (settings : Settings) (root : Path) (all : List Turn) : List Turn :=
  all.filter fun turn => !(turn.outcome settings root).failed

/-! ## Results -/

/-- Kept turns have one result each, which is the repair made there. -/
theorem forall₂_results (settings : Settings) (root : Path) (all : List Turn) :
    List.Forall₂ (fun turn result => ∃ source, turn.Makes settings root source result)
      (keptTurns settings root all)
      ((all.map (Turn.outcome settings root)).filterMap FileOutcome.repair?) := by
  induction all with
  | nil => exact List.Forall₂.nil
  | cons turn rest ih =>
      unfold keptTurns at ih ⊢
      rw [List.map_cons, List.filter_cons, List.filterMap_cons]
      -- A turn is left out on both sides or on neither, which its outcome decides.
      cases houtcome : turn.outcome settings root with
      | unreadable file error => exact ih
      | refused error => exact ih
      | unwritten file error => exact ih
      | repaired repair persisted =>
          exact List.Forall₂.cons (Turn.exists_makes_of_repaired houtcome) ih

/-- Results bear the names of their groups. -/
theorem map_file_results
    (h : List.Forall₂ (fun turn result => ∃ source, turn.Makes settings root source result) kept
      results) :
    results.map Repair.file = kept.map fun turn => turn.group.file := by
  induction h with
  | nil => rfl
  | cons hmakes _ ih =>
      obtain ⟨source, -, hrepair⟩ := hmakes
      rw [List.map_cons, List.map_cons, ih, Method.file_repair hrepair]

/-- Applied and remaining fixes together are as many as there are failures with fixes. -/
theorem length_applied_add_length_remaining (hmethod : settings.method = .inPlace)
    (h : List.Forall₂ (fun turn result => ∃ source, turn.Makes settings root source result) kept
      results) :
    (results.flatMap Repair.applied).length + (results.flatMap Repair.remaining).length =
      (kept.flatMap fun turn => turn.group.failures).countP Failure.hasFixes := by
  induction h with
  | nil => rfl
  | @cons turn result kept results hmakes _ ih =>
      obtain ⟨source, -, hrepair⟩ := hmakes
      rw [hmethod] at hrepair
      -- For one group this is the law of the selection: no candidate is lost.
      have hone : result.applied.length + result.remaining.length =
          turn.group.failures.countP Failure.hasFixes :=
        InPlace.length_applied_add_remaining hrepair
      rw [List.flatMap_cons, List.flatMap_cons, List.flatMap_cons, List.length_append,
        List.length_append, List.countP_append, ← hone, ← ih]
      omega

/-! ## Kept groups among the accepted failures -/

theorem nodup_file_turns (settings : Settings) (root : Path) (tree : Tree)
    (failures : List Failure) :
    ((turns settings root tree (acceptedGroups settings root tree failures)).map
      fun turn => turn.group.file).Nodup := by
  have hfiles := (isStablePartition_acceptedGroups settings root tree failures).nodup
  rw [← map_group_turns settings root tree (acceptedGroups settings root tree failures),
    List.map_map] at hfiles
  exact hfiles

/-- A turn is kept exactly if the name of its group is one of the kept names. -/
theorem file_mem_map_keptTurns_iff {all : List Turn}
    (hnodup : (all.map fun turn => turn.group.file).Nodup) (hturn : turn ∈ all) :
    turn.group.file ∈ (keptTurns settings root all).map (fun turn => turn.group.file) ↔
      (!(turn.outcome settings root).failed) = true := by
  constructor
  · intro hfile
    obtain ⟨other, hother, hsame⟩ := List.mem_map.mp hfile
    obtain ⟨hmem, hkept⟩ := List.mem_filter.mp hother
    -- Names of groups differ, so this is the same turn.
    obtain rfl : other = turn := List.inj_on_of_nodup_map hnodup hmem hturn hsame
    exact hkept
  · intro hkept
    exact List.mem_map.mpr ⟨turn, List.mem_filter.mpr ⟨hturn, hkept⟩, rfl⟩

/-- The groups that are kept are those with a kept name. -/
theorem filter_groups_eq_map_kept (settings : Settings) (root : Path) (tree : Tree)
    (failures : List Failure) :
    let groups := acceptedGroups settings root tree failures
    let kept := keptTurns settings root (turns settings root tree groups)
    groups.filter (fun group => decide (group.file ∈ kept.map fun turn => turn.group.file)) =
      kept.map Turn.group := by
  intro groups kept
  have hgroups : (turns settings root tree groups).map Turn.group = groups :=
    map_group_turns settings root tree groups
  have hnodup := nodup_file_turns settings root tree failures
  calc groups.filter (fun group => decide (group.file ∈ kept.map fun turn => turn.group.file))
      = ((turns settings root tree groups).map Turn.group).filter
          (fun group => decide (group.file ∈ kept.map fun turn => turn.group.file)) := by
        rw [hgroups]
    _ = ((turns settings root tree groups).filter fun turn =>
          decide (turn.group.file ∈ kept.map fun turn => turn.group.file)).map Turn.group :=
        List.filter_map
    _ = kept.map Turn.group := by
        refine congrArg (List.map Turn.group) (List.filter_congr fun turn hturn => ?_)
        rw [Bool.eq_iff_iff, decide_eq_true_iff]
        exact file_mem_map_keptTurns_iff hnodup hturn

/-- A failure of a kept group is an accepted failure with a kept name. -/
theorem mem_kept_iff (settings : Settings) (root : Path) (tree : Tree) (failures : List Failure)
    {failure : Failure} (hfailure : failure ∈ failures.filter settings.accepts) :
    let kept := keptTurns settings root
      (turns settings root tree (acceptedGroups settings root tree failures))
    (∃ turn ∈ kept, failure ∈ turn.group.failures) ↔
      resolveFileName tree root failure.file ∈ kept.map fun turn => turn.group.file := by
  intro kept
  have hpartition := isStablePartition_acceptedGroups settings root tree failures
  have hgroup : ∀ turn ∈ kept, turn.group.failures = (failures.filter settings.accepts).filter
      fun failure => resolveFileName tree root failure.file = turn.group.file := fun turn hturn =>
    hpartition.failures_eq _ (group_mem_of_mem_turns (List.mem_of_mem_filter hturn))
  rw [List.mem_map]
  constructor
  -- A group holds all accepted failures with its name, so the name decides.
  · rintro ⟨turn, hturn, hmem⟩
    rw [hgroup turn hturn] at hmem
    exact ⟨turn, hturn, (of_decide_eq_true (List.mem_filter.mp hmem).2).symm⟩
  · rintro ⟨turn, hturn, hname⟩
    refine ⟨turn, hturn, ?_⟩
    rw [hgroup turn hturn]
    exact List.mem_filter.mpr ⟨hfailure, decide_eq_true hname.symm⟩

/-- The failures with fixes in kept groups are accepted failures, each counted once. -/
theorem countP_kept (settings : Settings) (root : Path) (tree : Tree) (failures : List Failure) :
    let kept := keptTurns settings root
      (turns settings root tree (acceptedGroups settings root tree failures))
    (kept.flatMap fun turn => turn.group.failures).countP Failure.hasFixes =
      (failures.filter settings.accepts).countP fun failure =>
        failure.hasFixes && decide (∃ turn ∈ kept, failure ∈ turn.group.failures) := by
  intro kept
  have hflat : (kept.flatMap fun turn => turn.group.failures) =
      (kept.map Turn.group).flatMap FileGroup.failures := by
    rw [List.flatMap_map]
  -- Grouping moves failures but keeps their number, also of those in some of the groups.
  have hperm := flatMap_filter_groupByFile_perm tree root (failures.filter settings.accepts)
    fun file => decide (file ∈ kept.map fun turn => turn.group.file)
  have hkept : ((groupByFile tree root (failures.filter settings.accepts)).filter fun group =>
      decide (group.file ∈ kept.map fun turn => turn.group.file)) = kept.map Turn.group :=
    filter_groups_eq_map_kept settings root tree failures
  rw [hkept] at hperm
  rw [hflat, hperm.countP_eq, List.countP_filter]
  refine List.countP_congr fun failure hfailure => ?_
  rw [decide_eq_decide.mpr (mem_kept_iff settings root tree failures hfailure)]

/-! ## Outcomes -/

/-- A repair in place is written if there is a change and nothing goes wrong. -/
theorem isWritten_outcome (hmethod : settings.method = .inPlace) (root : Path) (turn : Turn) :
    (turn.outcome settings root).isWritten =
      (turn.changes settings root && !(turn.outcome settings root).failed) := by
  rcases Turn.outcome_cases settings root turn with
    ⟨error, hread, houtcome⟩ | ⟨source, error, hread, hrepair, houtcome⟩ |
    ⟨source, repair, ⟨hread, hrepair⟩, houtcome⟩
  · rw [houtcome]
    exact (Bool.and_false _).symm
  · rw [houtcome]
    exact (Bool.and_false _).symm
  · have hchanges : turn.changes settings root = repair.isModified source := by
      unfold Turn.changes
      rw [hread]
      dsimp only
      rw [hrepair]
      rfl
    have hwrite : writeRepair settings root turn.tree source repair =
        persist turn.tree repair source root settings.output := by
      unfold writeRepair
      rw [hmethod]
      rfl
    rw [houtcome, hchanges, hwrite]
    -- Whether there is a change decides between not writing at all and the outcome of writing.
    cases hmodified : repair.isModified source with
    | false =>
        rw [persist_unmodified settings.output hmodified]
        rfl
    | true =>
        have hne := result_persist_ne_unchanged turn.tree root settings.output hmodified
        cases hresult : (persist turn.tree repair source root settings.output).result with
        | error error => rfl
        | ok persisted =>
            cases persisted with
            | written target => rfl
            | unchanged => exact absurd hresult hne

/-! ## Totals -/

/-- Counting on from some numbers adds to each of them what there is of its kind. -/
theorem foldl_add_eq (totals : Totals) (outcomes : List FileOutcome) :
    outcomes.foldl Totals.add totals =
      { applied := totals.applied +
          ((outcomes.filterMap FileOutcome.repair?).flatMap Repair.applied).length
        remaining := totals.remaining +
          ((outcomes.filterMap FileOutcome.repair?).flatMap Repair.remaining).length
        written := totals.written + outcomes.countP FileOutcome.isWritten
        failed := totals.failed + outcomes.countP FileOutcome.failed } := by
  induction outcomes generalizing totals with
  | nil => rfl
  | cons outcome rest ih =>
      rw [List.foldl_cons, ih, List.filterMap_cons, List.countP_cons, List.countP_cons]
      -- A file that fails adds to one number only, and a repaired one to the others.
      cases outcome with
      | unreadable _ _ | refused _ | unwritten _ _ =>
          simp [Totals.add, FileOutcome.repair?, FileOutcome.isWritten, FileOutcome.failed]
          omega
      | repaired repair persisted =>
          cases persisted <;>
            simp [Totals.add, FileOutcome.repair?, FileOutcome.isWritten, FileOutcome.failed] <;>
            omega

/-- The numbers of a run in closed form. -/
theorem ofOutcomes_eq (outcomes : List FileOutcome) :
    Totals.ofOutcomes outcomes =
      { applied := ((outcomes.filterMap FileOutcome.repair?).flatMap Repair.applied).length
        remaining := ((outcomes.filterMap FileOutcome.repair?).flatMap Repair.remaining).length
        written := outcomes.countP FileOutcome.isWritten
        failed := outcomes.countP FileOutcome.failed } := by
  unfold Totals.ofOutcomes
  rw [foldl_add_eq]
  simp only [Nat.zero_add]

/-- The totals of a run in terms of its turns. -/
theorem written_ofOutcomes (hmethod : settings.method = .inPlace) (root : Path) (all : List Turn) :
    (Totals.ofOutcomes (all.map (Turn.outcome settings root))).written =
      (keptTurns settings root all).countP (Turn.changes settings root) := by
  rw [ofOutcomes_eq]
  dsimp only
  unfold keptTurns
  rw [List.countP_map, List.countP_filter]
  exact List.countP_congr fun turn _ => by
    rw [Function.comp_apply, isWritten_outcome hmethod]

theorem failed_ofOutcomes_add_length_kept (settings : Settings) (root : Path) (all : List Turn) :
    (Totals.ofOutcomes (all.map (Turn.outcome settings root))).failed +
      (keptTurns settings root all).length = all.length := by
  rw [ofOutcomes_eq]
  dsimp only
  unfold keptTurns
  rw [List.countP_map, List.countP_eq_length_filter]
  exact (List.length_eq_length_filter_add _).symm

theorem failed_ofOutcomes_eq_zero_iff (settings : Settings) (root : Path) (all : List Turn) :
    (Totals.ofOutcomes (all.map (Turn.outcome settings root))).failed = 0 ↔
      ∀ turn ∈ all, ¬ turn.Fails settings root := by
  rw [ofOutcomes_eq, List.countP_eq_zero, List.forall_mem_map]
  exact forall₂_congr fun turn _ => not_congr Turn.failed_outcome_iff

/-! ## The whole run -/

variable {environment : Environment} {filter : Log.Filter} {setup : Setup} {request : Request}

theorem status_runReports_apply_eq_one_iff (hverb : request.verb = .apply)
    (hload : Report.load tree environment.input request.options.reports = .ok failures) :
    (runReports environment filter tree setup request).status = 1 ↔
      ∃ turn ∈ turns setup.settings setup.root tree
        (acceptedGroups setup.settings setup.root tree failures),
        turn.Fails setup.settings setup.root := by
  have hzero := failed_ofOutcomes_eq_zero_iff setup.settings setup.root
    (turns setup.settings setup.root tree (acceptedGroups setup.settings setup.root tree failures))
  rw [← map_outcome_applyGroups] at hzero
  rw [runReports_apply hverb hload]
  show (if _ = 0 then 0 else 1) = 1 ↔ _
  rw [← not_iff_not]
  push Not
  rw [← hzero]
  split
  · next hnone => exact ⟨fun _ => hnone, fun _ => Nat.zero_ne_one⟩
  · next hsome => exact ⟨fun hne => absurd rfl hne, fun hnone => absurd hnone hsome⟩

theorem status_runReports_apply_le (hverb : request.verb = .apply)
    (hload : Report.load tree environment.input request.options.reports = .ok failures) :
    (runReports environment filter tree setup request).status ≤ 1 := by
  rw [runReports_apply hverb hload]
  show (if _ = 0 then 0 else 1) ≤ 1
  split <;> decide

theorem stdout_runReports_apply_json (hverb : request.verb = .apply)
    (hload : Report.load tree environment.input request.options.reports = .ok failures)
    (hformat : request.options.format = some .json) :
    (runReports environment filter tree setup request).stdout =
      line (Json.Value.list
        ((((applyGroups setup.settings setup.root tree
            (acceptedGroups setup.settings setup.root tree failures)).map
          FileRun.outcome).filterMap FileOutcome.repair?).map repairJson)).page := by
  rw [runReports_apply hverb hload, hformat]
  rfl

/-- A run without a format prints text as well. -/
theorem stdout_runReports_apply_text (hverb : request.verb = .apply)
    (hload : Report.load tree environment.input request.options.reports = .ok failures)
    (hformat : request.options.format ≠ some .json) :
    (runReports environment filter tree setup request).stdout =
      let outcomes := (applyGroups setup.settings setup.root tree
        (acceptedGroups setup.settings setup.root tree failures)).map FileRun.outcome
      String.join ((outcomes.filterMap FileOutcome.repair?).map
          (repairText environment.colored setup.settings.method)) ++
        totalsText environment.colored setup.settings.method (Totals.ofOutcomes outcomes) := by
  rw [runReports_apply hverb hload]
  cases hgiven : request.options.format with
  | none => rfl
  | some format =>
      cases format with
      | json => exact absurd hgiven hformat
      | text => rfl

/-- Results stand in the order in which their files first occur. -/
theorem pairwise_file_results (settings : Settings) (root : Path) (tree : Tree)
    (failures : List Failure) :
    ((keptTurns settings root (turns settings root tree
        (acceptedGroups settings root tree failures))).map fun turn => turn.group.file).Pairwise
      fun a b =>
        ((failures.filter settings.accepts).map fun failure =>
            resolveFileName tree root failure.file).idxOf a <
          ((failures.filter settings.accepts).map fun failure =>
            resolveFileName tree root failure.file).idxOf b := by
  have hordered := (isStablePartition_acceptedGroups settings root tree failures).ordered
  rw [← map_group_turns settings root tree (acceptedGroups settings root tree failures),
    List.map_map] at hordered
  exact hordered.sublist (List.filter_sublist.map _)

/-- The accounts of a run, for any mix of groups that fail and groups that do not.  Every group has
one turn.  The status is 1 exactly if in some turn the file cannot be read, no repair can be made or
the repair cannot be written.  The groups that fail and the kept ones are all groups.  In place, the
fixes applied and the fixes remaining are as many as the accepted failures with fixes in kept
groups, and as many files are written as there are kept groups whose content changes.  What is
printed are results, one for each kept group, in the order in which the files first occur among the
accepted failures: a list of them as JSON, or as text with the numbers behind them. -/
theorem runReports_apply_accounts_for_every_group (environment : Environment) (filter : Log.Filter)
    (tree : Tree) (setup : Setup) (request : Request) (failures : List Failure)
    (hverb : request.verb = .apply)
    (hload : Report.load tree environment.input request.options.reports = .ok failures) :
    let after := runReports environment filter tree setup request
    let accepted := failures.filter setup.settings.accepts
    let groups := acceptedGroups setup.settings setup.root tree failures
    let all := turns setup.settings setup.root tree groups
    let kept := keptTurns setup.settings setup.root all
    let totals := Totals.ofOutcomes
      ((applyGroups setup.settings setup.root tree groups).map FileRun.outcome)
    all.map Turn.group = groups ∧
    (∀ turn ∈ all, turn ∈ kept ↔ ¬ turn.Fails setup.settings setup.root) ∧
    (after.status = 1 ↔ ∃ turn ∈ all, turn.Fails setup.settings setup.root) ∧
    after.status ≤ 1 ∧
    totals.failed + kept.length = groups.length ∧
    (setup.settings.method = .inPlace →
      totals.applied + totals.remaining = accepted.countP (fun failure =>
        failure.hasFixes && decide (∃ turn ∈ kept, failure ∈ turn.group.failures)) ∧
      totals.written = kept.countP (Turn.changes setup.settings setup.root)) ∧
    ∃ results : List Repair,
      List.Forall₂ (fun turn result => result.file = turn.group.file ∧
        ∃ source, turn.Makes setup.settings setup.root source result) kept results ∧
      (results.map Repair.file).Pairwise (fun a b =>
        (accepted.map fun failure => resolveFileName tree setup.root failure.file).idxOf a <
          (accepted.map fun failure => resolveFileName tree setup.root failure.file).idxOf b) ∧
      (request.options.format = some .json →
        after.stdout = line (Json.Value.list (results.map repairJson)).page) ∧
      (request.options.format ≠ some .json →
        after.stdout =
          String.join (results.map (repairText environment.colored setup.settings.method)) ++
            totalsText environment.colored setup.settings.method totals) := by
  intro after accepted groups all kept totals
  -- The numbers and the results are those of the turns, so all of them can be counted there.
  have htotals : totals = Totals.ofOutcomes
      (all.map (Turn.outcome setup.settings setup.root)) :=
    congrArg Totals.ofOutcomes (map_outcome_applyGroups ..)
  have hresults := forall₂_results setup.settings setup.root all
  set results := (all.map (Turn.outcome setup.settings setup.root)).filterMap FileOutcome.repair?
    with hprinted
  rw [← map_outcome_applyGroups] at hprinted
  refine ⟨map_group_turns .., ?kept, status_runReports_apply_eq_one_iff hverb hload,
    status_runReports_apply_le hverb hload, ?count, ?inPlace, results, ?results, ?order, ?json,
    ?text⟩
  case kept =>
    -- Being kept is defined by the outcome of the turn, failing by what happens in it.
    intro turn hturn
    show turn ∈ all.filter _ ↔ _
    rw [List.mem_filter, Bool.not_eq_true', Bool.eq_false_iff, Ne, Turn.failed_outcome_iff]
    exact and_iff_right hturn
  case count =>
    rw [htotals, failed_ofOutcomes_add_length_kept,
      ← map_group_turns setup.settings setup.root tree groups, List.length_map]
  case inPlace =>
    intro hmethod
    refine ⟨?_, ?_⟩
    · -- First the sum within each kept group, then all kept groups as accepted failures.
      calc totals.applied + totals.remaining
          = (kept.flatMap fun turn => turn.group.failures).countP Failure.hasFixes := by
            rw [htotals, ofOutcomes_eq]
            exact length_applied_add_length_remaining hmethod hresults
        _ = _ := countP_kept setup.settings setup.root tree failures
    · rw [htotals]
      exact written_ofOutcomes hmethod setup.root all
  case results =>
    -- A repair bears the name of the group that it was made for.
    exact hresults.imp fun turn result ⟨source, hmakes⟩ =>
      ⟨Method.file_repair hmakes.2, source, hmakes⟩
  case order =>
    -- Leaving out the groups that fail keeps the order of the others.
    rw [map_file_results hresults]
    exact pairwise_file_results setup.settings setup.root tree failures
  case json =>
    intro hformat
    rw [hprinted]
    exact stdout_runReports_apply_json hverb hload hformat
  case text =>
    intro hformat
    rw [hprinted]
    exact stdout_runReports_apply_text hverb hload hformat

/-- Two failures, the first of which is about a file that is missing. -/
def missingFirst : List Failure := [
  .clamped "b.ts" "gone" 0 3 "" .error [.single "gone" ⟨0, 3, "", 0⟩],
  .clamped "a.ts" "const" 0 3 "" .error [.single "const" ⟨0, 3, "const", 0⟩]]

/-- What is made of the file that is there. -/
def constRepair : Repair where
  file := "a.ts"
  content := "const x = 1"
  message := "Applied 1 fixes, failed 0 fixes."
  applied := [.single "const" ⟨0, 3, "const", 0⟩]

theorem acceptedGroups_missingFirst :
    acceptedGroups {} (Location.path ["p"]) workshop missingFirst =
      [⟨"b.ts", missingFirst.take 1⟩, ⟨"a.ts", missingFirst.drop 1⟩] :=
  rfl

/-- The first file cannot be read, and this leaves the tree for the second one. -/
theorem turns_missingFirst :
    turns {} (Location.path ["p"]) workshop
        (acceptedGroups {} (Location.path ["p"]) workshop missingFirst) =
      [⟨workshop, ⟨"b.ts", missingFirst.take 1⟩⟩, ⟨workshop, ⟨"a.ts", missingFirst.drop 1⟩⟩] :=
  rfl

theorem makes_missingFirst :
    Turn.Makes {} (Location.path ["p"]) ⟨workshop, ⟨"a.ts", missingFirst.drop 1⟩⟩ "let x = 1"
      constRepair := by
  have hchosen : InPlace.chosen (missingFirst.drop 1) = [⟨0, 3, "const", 0⟩] := by decide
  have happly : Patch.apply "let x = 1" (InPlace.chosen (missingFirst.drop 1)) =
      .ok "const x = 1" := by
    rw [hchosen]
    unfold Patch.apply Patch.check
    rw [Patch.applicationOrder_singleton]
    decide
  refine ⟨by decide, ?_⟩
  show InPlace.repair "a.ts" "let x = 1" (missingFirst.drop 1) = .ok constRepair
  rw [InPlace.repair_of_apply_eq_ok happly]
  decide

theorem outcomes_missingFirst :
    (turns {} (Location.path ["p"]) workshop
        (acceptedGroups {} (Location.path ["p"]) workshop missingFirst)).map
      (Turn.outcome {} (Location.path ["p"])) =
      [.unreadable "b.ts" .notFound, .repaired constRepair (.written ⟨["", "p", "a.ts"]⟩)] := by
  have hwritten : (writeRepair {} (Location.path ["p"]) workshop "let x = 1" constRepair).result =
      .ok (.written ⟨["", "p", "a.ts"]⟩) := by decide
  rw [turns_missingFirst, List.map_cons, List.map_cons, Turn.outcome_of_makes makes_missingFirst,
    hwritten]
  rfl

theorem keptTurns_missingFirst :
    keptTurns {} (Location.path ["p"]) (turns {} (Location.path ["p"]) workshop
        (acceptedGroups {} (Location.path ["p"]) workshop missingFirst)) =
      [⟨workshop, ⟨"a.ts", missingFirst.drop 1⟩⟩] := by
  have houtcomes := outcomes_missingFirst
  rw [turns_missingFirst] at houtcomes ⊢
  obtain ⟨hfirst, hrest⟩ := List.cons.inj houtcomes
  obtain ⟨hsecond, -⟩ := List.cons.inj hrest
  unfold keptTurns
  rw [List.filter_cons_of_neg (by rw [hfirst]; decide),
    List.filter_cons_of_pos (by rw [hsecond]; rfl), List.filter_nil]

/-- The results of a run on these failures, as a page. -/
def constPage : String :=
  "[
  \x7b
    \"file_name\": \"a.ts\",
    \"content\": \"const x = 1\",
    \"message\": \"Applied 1 fixes, failed 0 fixes.\",
    \"applied\": [
      \x7b
        \"rule\": \"const\",
        \"replacements\": [
          \x7b
            \"start\": 0,
            \"length\": 3,
            \"text\": \"const\"
          \x7d
        ]
      \x7d
    ],
    \"remaining\": []
  \x7d
]"

set_option maxRecDepth 10000 in
theorem page_constRepair : (Json.Value.list ([constRepair].map repairJson)).page = constPage := rfl

/-- The results and the numbers of the run, as text. -/
def constText : String :=
  "✓ a.ts: Applied 1 fixes, failed 0 fixes.

Summary:
  1 fixes applied
  0 fixes remaining
  1 files written
  1 files failed
"

theorem text_constRepair :
    String.join ([constRepair].map (repairText false .inPlace)) ++
      totalsText false .inPlace ⟨1, 0, 1, 1⟩ = constText := by
  decide +kernel

/-- The one kept turn has one result, which is the repair made there. -/
theorem results_missingFirst {results : List Repair}
    (hresults : List.Forall₂ (fun turn result => result.file = turn.group.file ∧
        ∃ source, turn.Makes {} (Location.path ["p"]) source result)
      (keptTurns {} (Location.path ["p"]) (turns {} (Location.path ["p"]) workshop
        (acceptedGroups {} (Location.path ["p"]) workshop missingFirst))) results) :
    results = [constRepair] := by
  rw [keptTurns_missingFirst] at hresults
  obtain ⟨result, _, ⟨-, source, hmakes⟩, hrest, rfl⟩ := List.forall₂_cons_left_iff.mp hresults
  rw [List.forall₂_nil_left_iff.mp hrest, (hmakes.unique makes_missingFirst).2]

theorem totals_missingFirst :
    Totals.ofOutcomes ((applyGroups {} (Location.path ["p"]) workshop
      (acceptedGroups {} (Location.path ["p"]) workshop missingFirst)).map FileRun.outcome) =
        { applied := 1, remaining := 0, written := 1, failed := 1 } := by
  rw [map_outcome_applyGroups, outcomes_missingFirst]
  rfl

theorem runReports_apply_accounts_for_every_group_missing_file :
    let environment : Environment := { input := .ok (Report.render missingFirst) }
    let setup : Setup := ⟨Location.path ["p"], {}, .builtIn⟩
    let text : Options := { reports := [Report.standardInput] }
    let json : Options := { reports := [Report.standardInput], format := some .json }
    Totals.ofOutcomes ((applyGroups setup.settings setup.root workshop
      (acceptedGroups setup.settings setup.root workshop missingFirst)).map FileRun.outcome) =
        { applied := 1, remaining := 0, written := 1, failed := 1 } ∧
    (runReports environment (.upTo .info) workshop setup ⟨.apply, text⟩).status = 1 ∧
    (runReports environment (.upTo .info) workshop setup ⟨.apply, text⟩).stdout = constText ∧
    (runReports environment (.upTo .info) workshop setup ⟨.apply, json⟩).stdout =
      line constPage := by
  intro environment setup text json
  have hnone : workshop.locate Report.standardInput = .error .notFound := by decide
  have hload : Report.load workshop (.ok (Report.render missingFirst)) [Report.standardInput] =
      .ok missingFirst := Report.load_standardInput hnone missingFirst
  obtain ⟨-, -, hone, -, -, -, shown, hshown, -, -, htext⟩ :=
    runReports_apply_accounts_for_every_group environment (.upTo .info) workshop setup
      ⟨.apply, text⟩ missingFirst rfl hload
  obtain ⟨-, -, -, -, -, -, listed, hlisted, -, hjson, -⟩ :=
    runReports_apply_accounts_for_every_group environment (.upTo .info) workshop setup
      ⟨.apply, json⟩ missingFirst rfl hload
  have hread : workshop.readText (Path.join (Location.path ["p"]) (Path.ofText "b.ts")) =
      .error .notFound := by decide
  rw [turns_missingFirst] at hone
  refine ⟨totals_missingFirst, hone.mpr ⟨_, List.mem_cons_self, .unreadable .notFound hread⟩,
    ?_, ?_⟩
  · rw [htext (by simp [text]), results_missingFirst hshown, totals_missingFirst]
    exact text_constRepair
  · rw [hjson rfl, results_missingFirst hlisted, page_constRepair]

end LintRepair.Command
