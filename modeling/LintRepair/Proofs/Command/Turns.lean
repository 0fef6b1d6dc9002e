import Mathlib.Data.List.Basic
import Mathlib.Tactic.Common
import LintRepair.Proofs.Command.Groups

/-!
# The turns of a run

When the turn of a group comes, the groups before it have left some tree.  `turns` lists all groups
of a run with these trees, so that what is said about a run can be said about its turns one by one:
the run of a group is nothing but its turn (`applyGroups_eq_map_turns`).

In its turn a group ends in one of three ways, and which one it is depends on the file that is read
there, on the repair that the method makes of it, and on the writing of this repair
(`Turn.outcome_cases`).  All counts of a run come from this lemma.
-/

namespace LintRepair.Command

/-- A group, and the tree that it finds when its turn comes. -/
structure Turn where
  tree : Tree
  group : FileGroup

/-- The turns of groups: each one finds the tree that the one before has left. -/
def turns (settings : Settings) (root : Path) : Tree → List FileGroup → List Turn
  | _, [] => []
  | tree, group :: groups =>
      ⟨tree, group⟩ :: turns settings root (applyGroup settings root tree group).tree groups

namespace Turn

/-- What becomes of the file of a group in its turn. -/
def outcome (settings : Settings) (root : Path) (turn : Turn) : FileOutcome :=
  (applyGroup settings root turn.tree turn.group).outcome

/-- A source is read in this turn, and a repair is made of it. -/
def Makes (settings : Settings) (root : Path) (turn : Turn) (source : String) (repair : Repair) :
    Prop :=
  turn.tree.readText (turn.group.path root) = .ok source ∧
    settings.method.repair turn.group.file source turn.group.failures = .ok repair

/-- What goes wrong in a turn: the file cannot be read, there is no repair, or it is not written. -/
inductive Fails (settings : Settings) (root : Path) (turn : Turn) : Prop where
  | unreadable (error : IoError) (hread : turn.tree.readText (turn.group.path root) = .error error)
  | refused (source : String) (error : RepairError)
      (hread : turn.tree.readText (turn.group.path root) = .ok source)
      (hrepair : settings.method.repair turn.group.file source turn.group.failures = .error error)
  | unwritten (source : String) (repair : Repair) (error : PersistError)
      (hmakes : turn.Makes settings root source repair)
      (hwrite : (writeRepair settings root turn.tree source repair).result = .error error)

/-- The content that is made in a turn is another one than what was read. -/
def changes (settings : Settings) (root : Path) (turn : Turn) : Bool :=
  match turn.tree.readText (turn.group.path root) with
  | .error _ => false
  | .ok source =>
      match settings.method.repair turn.group.file source turn.group.failures with
      | .error _ => false
      | .ok repair => repair.content != source

end Turn

variable {settings : Settings} {root : Path} {tree : Tree} {groups : List FileGroup} {turn : Turn}
  {source : String} {repair : Repair}

/-! ## A run is its turns -/

theorem applyGroups_eq_map_turns (settings : Settings) (root : Path) (tree : Tree)
    (groups : List FileGroup) :
    applyGroups settings root tree groups =
      (turns settings root tree groups).map fun turn =>
        applyGroup settings root turn.tree turn.group := by
  induction groups generalizing tree with
  | nil => rfl
  | cons group rest ih => rw [applyGroups, turns, List.map_cons, ih]

theorem map_outcome_applyGroups (settings : Settings) (root : Path) (tree : Tree)
    (groups : List FileGroup) :
    (applyGroups settings root tree groups).map FileRun.outcome =
      (turns settings root tree groups).map (Turn.outcome settings root) := by
  rw [applyGroups_eq_map_turns, List.map_map]
  rfl

/-- Every group has one turn, in the order of the groups. -/
theorem map_group_turns (settings : Settings) (root : Path) (tree : Tree)
    (groups : List FileGroup) : (turns settings root tree groups).map Turn.group = groups := by
  induction groups generalizing tree with
  | nil => rfl
  | cons group rest ih => rw [turns, List.map_cons, ih]

theorem group_mem_of_mem_turns (hturn : turn ∈ turns settings root tree groups) :
    turn.group ∈ groups := by
  rw [← map_group_turns settings root tree groups]
  exact List.mem_map_of_mem hturn

/-! ## One turn -/

namespace Turn

theorem outcome_of_makes (hmakes : turn.Makes settings root source repair) :
    turn.outcome settings root = .ofPersist turn.group.file repair
      (writeRepair settings root turn.tree source repair).result :=
  outcome_applyGroup_of_repaired hmakes.1 hmakes.2

/-- A turn reads one source and makes one repair of it. -/
theorem Makes.unique {other : String} {made : Repair}
    (hmakes : turn.Makes settings root source repair)
    (hother : turn.Makes settings root other made) : source = other ∧ repair = made := by
  obtain ⟨hread, hrepair⟩ := hmakes
  obtain rfl : source = other := Except.ok.inj (hread.symm.trans hother.1)
  exact ⟨rfl, Except.ok.inj (hrepair.symm.trans hother.2)⟩

/-- The three ways of a turn, with all that is known about each. -/
theorem outcome_cases (settings : Settings) (root : Path) (turn : Turn) :
    (∃ error, turn.tree.readText (turn.group.path root) = .error error ∧
      turn.outcome settings root = .unreadable turn.group.file error) ∨
    (∃ source error, turn.tree.readText (turn.group.path root) = .ok source ∧
      settings.method.repair turn.group.file source turn.group.failures = .error error ∧
      turn.outcome settings root = .refused error) ∨
    ∃ source repair, turn.Makes settings root source repair ∧
      turn.outcome settings root = .ofPersist turn.group.file repair
        (writeRepair settings root turn.tree source repair).result := by
  cases hread : turn.tree.readText (turn.group.path root) with
  | error error =>
      refine Or.inl ⟨error, rfl, ?_⟩
      unfold outcome
      rw [applyGroup_of_unreadable hread]
  | ok source =>
  cases hrepair : settings.method.repair turn.group.file source turn.group.failures with
  | error error =>
      refine Or.inr (Or.inl ⟨source, error, rfl, hrepair, ?_⟩)
      unfold outcome
      rw [applyGroup_of_refused hread hrepair]
  | ok repair =>
      -- From here on the outcome is that of writing.
      have hmakes : turn.Makes settings root source repair := ⟨hread, hrepair⟩
      exact Or.inr (Or.inr ⟨source, repair, hmakes, outcome_of_makes hmakes⟩)

/-- A repair that is reported has been made in the turn. -/
theorem exists_makes_of_repaired {persisted : Persisted}
    (houtcome : turn.outcome settings root = .repaired repair persisted) :
    ∃ source, turn.Makes settings root source repair :=
  exists_of_outcome_repaired houtcome

theorem failed_outcome_iff :
    (turn.outcome settings root).failed = true ↔ turn.Fails settings root := by
  rcases outcome_cases settings root turn with
    ⟨error, hread, houtcome⟩ | ⟨source, error, hread, hrepair, houtcome⟩ |
    ⟨source, repair, hmakes, houtcome⟩
  · rw [houtcome]
    exact ⟨fun _ => .unreadable error hread, fun _ => rfl⟩
  · rw [houtcome]
    exact ⟨fun _ => .refused source error hread hrepair, fun _ => rfl⟩
  · rw [houtcome]
    cases hwrite : (writeRepair settings root turn.tree source repair).result with
    | error error => exact ⟨fun _ => .unwritten source repair error hmakes hwrite, fun _ => rfl⟩
    | ok persisted =>
        refine ⟨fun hfailed => absurd hfailed (by simp [FileOutcome.ofPersist, FileOutcome.failed]),
          fun hfails => ?_⟩
        -- What was read and made is determined, and writing it succeeds.
        cases hfails with
        | unreadable error hread => exact absurd (hmakes.1.symm.trans hread) (by simp)
        | refused other error hread hrefused =>
            obtain rfl : source = other := Except.ok.inj (hmakes.1.symm.trans hread)
            exact absurd (hmakes.2.symm.trans hrefused) (by simp)
        | unwritten other made error hother hunwritten =>
            obtain ⟨rfl, rfl⟩ := hmakes.unique hother
            exact absurd (hwrite.symm.trans hunwritten) (by simp)

end Turn

end LintRepair.Command
