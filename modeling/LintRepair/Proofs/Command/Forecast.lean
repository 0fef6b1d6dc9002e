import Mathlib.Data.List.Basic
import Mathlib.Tactic.Common
import LintRepair.Proofs.Command.Accounts

/-!
# What a trial foretells

A trial repairs every group on the tree of the beginning and writes nothing; a run repairs each
group on what the groups before it have left.  With direct output and without links the groups of a
run lie apart, so each one still reads in its turn what there was at the beginning
(`turns_direct`), and a repair in place depends on nothing else.  So the trial foretells every turn
up to the writing of the repair (`Foretells`): a file that cannot be read, a repair that is refused,
and the numbers of fixes that are applied and that remain.

Writing is what a trial cannot foretell.  A run may fail where the trial did not, but not the other
way round.
-/

namespace LintRepair.Command

variable {settings : Settings} {root : Path} {tree now : Tree} {failures : List Failure}
  {group : FileGroup} {groups : List FileGroup} {turn : Turn} {forecast : FileForecast}
  {source : String}

/-! ## One group of a trial -/

theorem forecast_of_unreadable {error : IoError}
    (hread : tree.readText (group.path root) = .error error) :
    (checkGroup root tree group).forecast = .unreadable group.file error := by
  unfold FileGroup.path at hread
  unfold checkGroup
  rw [hread]

theorem forecast_of_refused {error : RepairError}
    (hread : tree.readText (group.path root) = .ok source)
    (hrepair : InPlace.repair group.file source group.failures = .error error) :
    (checkGroup root tree group).forecast = .refused error := by
  unfold FileGroup.path at hread
  unfold checkGroup
  rw [hread]
  simp only [hrepair]

/-- Every failure with fixes is one that would be applied or one that would remain. -/
theorem forecast_of_repaired {repair : Repair}
    (hread : tree.readText (group.path root) = .ok source)
    (hrepair : InPlace.repair group.file source group.failures = .ok repair) :
    (checkGroup root tree group).forecast =
      .repairable group.file (repair.applied.length + repair.remaining.length)
        repair.applied.length repair.remaining.length := by
  rw [InPlace.length_applied_add_remaining hrepair]
  unfold FileGroup.path at hread
  unfold checkGroup
  rw [hread]
  simp only [hrepair]

/-! ## One turn of a run -/

/-- A forecast is right about a turn: it names the trouble that there is in the turn before a repair
has been made, with the same error, and else the numbers of fixes of the repair that is made. -/
structure Foretells (settings : Settings) (root : Path) (forecast : FileForecast) (turn : Turn) :
    Prop where
  unreadable_iff : ∀ file error, forecast = .unreadable file error ↔
    turn.outcome settings root = .unreadable file error
  refused_iff : ∀ error, forecast = .refused error ↔ turn.outcome settings root = .refused error
  repairable_iff : ∀ file fixable applied remaining,
    forecast = .repairable file fixable applied remaining ↔
      ∃ source repair, turn.Makes settings root source repair ∧ file = turn.group.file ∧
        applied = repair.applied.length ∧ remaining = repair.remaining.length ∧
        fixable = applied + remaining

namespace Foretells

/-- A turn fails where the forecast says so. -/
theorem failed_outcome (h : Foretells settings root forecast turn) (hfailed : forecast.failed) :
    (turn.outcome settings root).failed := by
  cases hforecast : forecast with
  | unreadable file error =>
      rw [(h.unreadable_iff file error).mp hforecast]
      rfl
  | refused error =>
      rw [(h.refused_iff error).mp hforecast]
      rfl
  | repairable file fixable applied remaining =>
      rw [hforecast] at hfailed
      exact absurd hfailed Bool.false_ne_true

end Foretells

/-- What is read at the beginning decides about the turn, if it is what the turn reads. -/
theorem foretells_of_readText_eq (hmethod : settings.method = .inPlace)
    (hsame : turn.tree.readText (turn.group.path root) = tree.readText (turn.group.path root)) :
    Foretells settings root (checkGroup root tree turn.group).forecast turn := by
  rcases Turn.outcome_cases settings root turn with
    ⟨error, hread, houtcome⟩ | ⟨source, error, hread, hrepair, houtcome⟩ |
    ⟨source, repair, ⟨hread, hrepair⟩, houtcome⟩
  · have hforecast := forecast_of_unreadable (hsame.symm.trans hread)
    refine ⟨?_, ?_, ?_⟩
    · simp [hforecast, houtcome]
    · simp [hforecast, houtcome]
    · simp [hforecast, Turn.Makes, hread]
  · have hmade : InPlace.repair turn.group.file source turn.group.failures = .error error := by
      rw [hmethod] at hrepair
      exact hrepair
    have hforecast := forecast_of_refused (hsame.symm.trans hread) hmade
    refine ⟨?_, ?_, ?_⟩
    · simp [hforecast, houtcome]
    · simp [hforecast, houtcome]
    · simp [hforecast, Turn.Makes, hread, hrepair]
  · have hmade : InPlace.repair turn.group.file source turn.group.failures = .ok repair := by
      rw [hmethod] at hrepair
      exact hrepair
    have hforecast := forecast_of_repaired (hsame.symm.trans hread) hmade
    refine ⟨?_, ?_, fun file fixable applied remaining => ?_⟩
    · simp [hforecast, houtcome, FileOutcome.ofPersist_ne_unreadable]
    · simp [hforecast, houtcome, FileOutcome.ofPersist_ne_refused]
    · rw [hforecast, FileForecast.repairable.injEq]
      constructor
      · rintro ⟨rfl, rfl, rfl, rfl⟩
        exact ⟨source, repair, ⟨hread, hrepair⟩, rfl, rfl, rfl, rfl⟩
      · rintro ⟨other, made, hmakes, rfl, rfl, rfl, rfl⟩
        obtain ⟨-, rfl⟩ := Turn.Makes.unique ⟨hread, hrepair⟩ hmakes
        exact ⟨rfl, rfl, rfl, rfl⟩

/-! ## All turns -/

/-- Every turn finds the outline of the first tree, and at the place of its group the same file. -/
theorem turns_direct (hfree : tree.LinkFree) (hroot : root.IsCanonical)
    (houtput : settings.output = .direct) (h : now.SameOutline tree)
    (hdistinct : groups.Pairwise fun group other => ∀ place,
      tree.locate (group.path root) = .ok place → tree.locate (other.path root) ≠ .ok place)
    (hfresh : ∀ group ∈ groups, ∀ place, tree.locate (group.path root) = .ok place →
      now.entry? place = tree.entry? place) :
    ∀ turn ∈ turns settings root now groups, turn.tree.SameOutline tree ∧
      ∀ place, tree.locate (turn.group.path root) = .ok place →
        turn.tree.entry? place = tree.entry? place := by
  -- Each turn but the first one is a turn of the groups that are left, on the tree handed on.
  induction groups generalizing now with
  | nil => exact fun turn hturn => absurd hturn List.not_mem_nil
  | cons first rest ih =>
      obtain ⟨hnext, hfreshNext⟩ :=
        fresh_applyGroup_direct hfree hroot houtput h hdistinct hfresh
      rw [turns, List.forall_mem_cons]
      exact ⟨⟨h, hfresh first List.mem_cons_self⟩,
        ih hnext (List.pairwise_cons.mp hdistinct).2 hfreshNext⟩

/-- The forecasts of all groups are right. -/
theorem foretells_of_mem_turns (hfree : tree.LinkFree) (hroot : root.IsCanonical)
    (hmethod : settings.method = .inPlace) (houtput : settings.output = .direct)
    (hturn : turn ∈ turns settings root tree (acceptedGroups settings root tree failures)) :
    Foretells settings root (checkGroup root tree turn.group).forecast turn := by
  obtain ⟨houtline, hentry⟩ := turns_direct hfree hroot houtput (Tree.SameOutline.refl tree)
    (pairwise_locate_path hfree hroot) (fun group _ place _ => rfl) turn hturn
  refine foretells_of_readText_eq hmethod (houtline.readText_eq fun place hlocate => ?_)
  rw [houtline.locate_eq] at hlocate
  exact hentry place hlocate

/-! ## Both commands -/

section

variable {environment : Environment} {filter : Log.Filter} {setup : Setup} {request : Request}

theorem tree_runReports_check (hverb : request.verb = .check)
    (hload : Report.load tree environment.input request.options.reports = .ok failures) :
    (runReports environment filter tree setup request).tree = tree := by
  rw [runReports_check hverb hload]
  rfl

theorem status_runReports_check_eq_one_iff (hverb : request.verb = .check)
    (hload : Report.load tree environment.input request.options.reports = .ok failures) :
    (runReports environment filter tree setup request).status = 1 ↔
      ∃ group ∈ acceptedGroups setup.settings setup.root tree failures,
        (checkGroup setup.root tree group).forecast.failed := by
  rw [runReports_check hverb hload]
  unfold runCheck
  simp only [List.any_map, Function.comp_def]
  rw [← List.any_eq_true]
  split
  · next hsome => exact ⟨fun _ => hsome, fun _ => rfl⟩
  · next hnone => exact ⟨fun hzero => absurd hzero Nat.zero_ne_one, fun hsome => absurd hsome hnone⟩

theorem stdout_runReports_check (hverb : request.verb = .check)
    (hload : Report.load tree environment.input request.options.reports = .ok failures) :
    (runReports environment filter tree setup request).stdout =
      let groups := acceptedGroups setup.settings setup.root tree failures
      checkHeading environment.colored setup.root setup.settings.method failures.length
          groups.length ++
        String.join (groups.map fun group =>
          forecastText environment.colored (checkGroup setup.root tree group).forecast) := by
  rw [runReports_check hverb hload]
  unfold runCheck
  simp only [List.map_map, Function.comp_def]

end

/-- What a trial says of a run that starts on the same tree, without links, and repairs in place
with direct output.  The trial leaves the tree.  Both have the same groups in the same order, and
for each of them the forecast is right about the turn of the group, whatever the turns before it
have written: it says that the file cannot be read, or that there is no repair, exactly if this is
so in the turn; and else its numbers are those of the repair made there, of which the first is the
sum of the others.  So the run ends with status 1 if the trial does.  What the trial prints is a
heading and a line for every forecast. -/
theorem runReports_check_foretells_apply (environment : Environment) (filter : Log.Filter)
    (tree : Tree) (setup : Setup) (request : Request) (hfree : tree.LinkFree)
    (hroot : setup.root.IsCanonical) (hmethod : setup.settings.method = .inPlace)
    (houtput : setup.settings.output = .direct) :
    let check := runReports environment filter tree setup { request with verb := .check }
    let apply := runReports environment filter tree setup { request with verb := .apply }
    check.tree = tree ∧
    (check.status = 1 → apply.status = 1) ∧
    ∀ failures, Report.load tree environment.input request.options.reports = .ok failures →
      let groups := acceptedGroups setup.settings setup.root tree failures
      let all := turns setup.settings setup.root tree groups
      let forecast := fun group => (checkGroup setup.root tree group).forecast
      all.map Turn.group = groups ∧
      check.stdout =
        checkHeading environment.colored setup.root setup.settings.method failures.length
            groups.length ++
          String.join (groups.map fun group =>
            forecastText environment.colored (forecast group)) ∧
      (check.status = 1 ↔ ∃ group ∈ groups, (forecast group).failed) ∧
      (apply.status = 1 ↔ ∃ turn ∈ all, turn.Fails setup.settings setup.root) ∧
      ∀ turn ∈ all, Foretells setup.settings setup.root (forecast turn.group) turn := by
  intro check apply
  cases hload : Report.load tree environment.input request.options.reports with
  | error error =>
      -- Both end with the same error before they look at any file.
      have hcheck : check = .failed tree (.report error) := runReports_of_error hload
      have happly : apply = .failed tree (.report error) := runReports_of_error hload
      rw [hcheck, happly]
      exact ⟨rfl, id, fun failures hother => absurd hother (by simp)⟩
  | ok failures =>
      have hfails : check.status = 1 ↔ _ := status_runReports_check_eq_one_iff rfl hload
      have hfailsApply : apply.status = 1 ↔ _ := status_runReports_apply_eq_one_iff rfl hload
      have hright : ∀ turn ∈ turns setup.settings setup.root tree
          (acceptedGroups setup.settings setup.root tree failures),
          Foretells setup.settings setup.root (checkGroup setup.root tree turn.group).forecast
            turn :=
        fun turn hturn => foretells_of_mem_turns hfree hroot hmethod houtput hturn
      refine ⟨tree_runReports_check rfl hload, ?_, ?_⟩
      · -- A group that fails in the trial has a turn in the run, and fails there as well.
        intro hone
        obtain ⟨group, hgroup, hfailed⟩ := hfails.mp hone
        rw [← map_group_turns setup.settings setup.root tree
          (acceptedGroups setup.settings setup.root tree failures)] at hgroup
        obtain ⟨turn, hturn, rfl⟩ := List.mem_map.mp hgroup
        refine hfailsApply.mpr ⟨turn, hturn, ?_⟩
        exact Turn.failed_outcome_iff.mp ((hright turn hturn).failed_outcome hfailed)
      · intro loaded hloaded groups all forecast
        obtain rfl : failures = loaded := Except.ok.inj hloaded
        exact ⟨map_group_turns .., stdout_runReports_check rfl hload, hfails, hfailsApply, hright⟩

/-- What the trial of two failures foretells. -/
theorem forecasts_missingFirst :
    (acceptedGroups {} (Location.path ["p"]) workshop missingFirst).map
      (fun group => (checkGroup (Location.path ["p"]) workshop group).forecast) =
      [.unreadable "b.ts" .notFound, .repairable "a.ts" 1 1 0] := by
  have hfirst : workshop.readText (FileGroup.path (Location.path ["p"])
      ⟨"b.ts", missingFirst.take 1⟩) = .error .notFound := by decide
  obtain ⟨hsecond, hrepair⟩ := makes_missingFirst
  rw [acceptedGroups_missingFirst, List.map_cons, List.map_cons, forecast_of_unreadable hfirst,
    forecast_of_repaired hsecond hrepair]
  rfl

/-- What the trial prints. -/
def constForecast : String :=
  "Fix Check Report
Root: /p
Method: in-place
Failures: 2 (2 eligible files)

✓ a.ts: 1 fixable, 1 would apply, 0 would conflict
"

theorem text_forecasts :
    checkHeading false (Location.path ["p"]) .inPlace 2 2 ++
      String.join ([.unreadable "b.ts" .notFound, .repairable "a.ts" 1 1 0].map
        (forecastText false)) = constForecast := by
  decide +kernel

theorem runReports_check_foretells_apply_missing_file :
    let environment : Environment := { input := .ok (Report.render missingFirst) }
    let setup : Setup := ⟨Location.path ["p"], {}, .builtIn⟩
    let options : Options := { reports := [Report.standardInput] }
    (runReports environment (.upTo .info) workshop setup ⟨.check, options⟩).tree = workshop ∧
    (runReports environment (.upTo .info) workshop setup ⟨.check, options⟩).status = 1 ∧
    (runReports environment (.upTo .info) workshop setup ⟨.check, options⟩).stdout =
      constForecast ∧
    (runReports environment (.upTo .info) workshop setup ⟨.apply, options⟩).status = 1 ∧
    ∃ turn ∈ turns setup.settings setup.root workshop
        (acceptedGroups setup.settings setup.root workshop missingFirst),
      ∃ source repair, turn.Makes setup.settings setup.root source repair ∧
        turn.group.file = "a.ts" ∧ repair.applied.length = 1 ∧ repair.remaining.length = 0 := by
  intro environment setup options
  have hroot : setup.root.IsCanonical := ⟨["p"], by decide, rfl⟩
  have hnone : workshop.locate Report.standardInput = .error .notFound := by decide
  have hload : Report.load workshop environment.input options.reports = .ok missingFirst :=
    Report.load_standardInput hnone missingFirst
  obtain ⟨htree, hstatus, hloaded⟩ := runReports_check_foretells_apply environment (.upTo .info)
    workshop setup ⟨.check, options⟩ (Tree.linkFree_of_entries (by decide)) hroot rfl rfl
  obtain ⟨-, hstdout, hfails, -, hright⟩ := hloaded missingFirst hload
  have hforecasts := forecasts_missingFirst
  rw [acceptedGroups_missingFirst] at hforecasts hfails hstdout
  obtain ⟨hfirst, hrest⟩ := List.cons.inj hforecasts
  obtain ⟨hsecond, -⟩ := List.cons.inj hrest
  have hone := hfails.mpr ⟨_, List.mem_cons_self, by rw [hfirst]; rfl⟩
  refine ⟨htree, hone, ?_, hstatus hone, ?_⟩
  · rw [hstdout, List.map_cons, List.map_cons, List.map_nil, hfirst, hsecond]
    exact text_forecasts
  · rw [turns_missingFirst] at hright ⊢
    have hforetells := hright _ (List.mem_cons_of_mem _ List.mem_cons_self)
    obtain ⟨source, repair, hmakes, -, happlied, hremaining, -⟩ :=
      (hforetells.repairable_iff "a.ts" 1 1 0).mp hsecond
    exact ⟨_, List.mem_cons_of_mem _ List.mem_cons_self, source, repair, hmakes, rfl,
      happlied.symm, hremaining.symm⟩

end LintRepair.Command
