import Mathlib.Data.List.Basic
import Mathlib.Tactic.Common
import LintRepair.Proofs.Report.Group
import LintRepair.Proofs.Report.Naming

/-!
# Names of files that are not there

If nothing is found at the path of a file, its name is made of the text alone.  What is left of the
text is its place and the number of its steps in excess, the `..` that lead up from the root
directory of the tree: the name says both and nothing else (`resolveFileName_eq_iff_of_isMissing`).

So the name leads where the text leads, it is its own name, and two places never share one
(`exists_resolvedPath_of_isNamedByText`).  The other way round it takes more than one place to have
one name: the steps in excess lead nowhere, but they stay in the name and set apart two spellings of
one file.
-/

namespace LintRepair

variable {tree : Tree} {root : Path} {file other : String} {place : Location}

/-- Nothing is found where the normal form of a file's path leads. -/
def IsMissing (tree : Tree) (root : Path) (file : String) : Prop :=
  ∃ error, tree.canonical (root.join (Path.ofText file)).normalized = .error error

/-- No link has a say in the name of a file. -/
def IsNamedByText (tree : Tree) (root : Path) (file : String) : Prop :=
  tree.LinkFree ∨ IsMissing tree root file

/-- The number of steps in the path of a file that lead up from the root directory of the tree. -/
def namedExcess (root : Path) (file : String) : Nat :=
  (root.join (Path.ofText file)).excess

/-! ## The path behind a name -/

theorem normalized_join_ofText (hroot : root.IsDescent) (file : String) :
    (root.join (Path.ofText file)).normalized =
      Path.rising (namedExcess root file) (namedPlace root file) :=
  Path.normalized_eq_rising (hroot.isAbsolute_join file)

theorem resolvedPath_eq (tree : Tree) {normal : Path}
    (hnormal : (root.join (Path.ofText file)).normalized = normal) :
    resolvedPath tree root file =
      match tree.canonical normal with
      | .ok path => path
      | .error _ => normal := by
  unfold resolvedPath
  cases hcanonical : tree.canonical normal with
  | ok path => simp only [hnormal, hcanonical]
  | error error => simp only [hnormal, hcanonical]

theorem resolvedPath_of_isMissing (hroot : root.IsDescent) (hmissing : IsMissing tree root file) :
    resolvedPath tree root file = Path.rising (namedExcess root file) (namedPlace root file) := by
  obtain ⟨error, herror⟩ := hmissing
  rw [normalized_join_ofText hroot] at herror
  rw [resolvedPath_eq tree (normalized_join_ofText hroot file), herror]

/-- Whatever is found without links has the path of its place. -/
theorem canonical_eq_of_linkFree (hfree : tree.LinkFree) (hplace : place.IsProper) (ups : Nat)
    {canonical : Path} (hcanonical : tree.canonical (Path.rising ups place) = .ok canonical) :
    canonical = Path.rising 0 place := by
  rw [Tree.eq_path_place_of_canonical hfree (Path.isAbsolute_rising ups place) hcanonical,
    Path.place_rising ups hplace, Path.rising_zero]

/-- The path of a file is in normal form and leads to its place, and it is found again by its name.
-/
theorem exists_resolvedPath_of_isNamedByText (hroot : root.IsDescent)
    (htext : IsNamedByText tree root file) :
    ∃ ups, resolvedPath tree root file = Path.rising ups (namedPlace root file) ∧
      resolvedPath tree root (nameFrom root (Path.rising ups (namedPlace root file))) =
        Path.rising ups (namedPlace root file) := by
  have hplace := hroot.isProper_namedPlace file
  have hfirst := resolvedPath_eq tree (normalized_join_ofText hroot file)
  have hagain := fun ups => resolvedPath_eq tree (hroot.normalized_join_nameFrom hplace ups)
  cases hcanonical : tree.canonical
      (Path.rising (namedExcess root file) (namedPlace root file)) with
  | error error =>
      refine ⟨namedExcess root file, ?_, ?_⟩
      · rw [hfirst, hcanonical]
      · rw [hagain, hcanonical]
  | ok canonical =>
      -- What is found without links is the place itself, with no `..` in front of it.
      rcases htext with hfree | ⟨error, herror⟩
      · refine ⟨0, ?_, ?_⟩
        · rw [hfirst, hcanonical]
          exact canonical_eq_of_linkFree hfree hplace _ hcanonical
        · rw [hagain]
          split
          · next path hfound => exact canonical_eq_of_linkFree hfree hplace 0 hfound
          · rfl
      · rw [normalized_join_ofText hroot, hcanonical] at herror
        exact absurd herror (by simp)

/-- The root directory and a name give back the path that the name was made from. -/
theorem eq_of_nameFrom_eq (hroot : root.IsDescent) {place place' : Location}
    (hplace : place.IsProper) (hplace' : place'.IsProper) {ups ups' : Nat}
    (hname : nameFrom root (Path.rising ups place) = nameFrom root (Path.rising ups' place')) :
    ups = ups' ∧ place = place' := by
  have hsame : Path.rising ups place = Path.rising ups' place' := by
    rw [← hroot.normalized_join_nameFrom hplace ups, hname,
      hroot.normalized_join_nameFrom hplace' ups']
  constructor
  · rw [← Path.excess_rising ups hplace, hsame, Path.excess_rising ups' hplace']
  · rw [← Path.place_rising ups hplace, hsame, Path.place_rising ups' hplace']

/-! ## Places of names -/

/-- Two failures are in one group if their files have one name. -/
theorem exists_group_iff {failures : List Failure} {failure failure' : Failure}
    (hfailure : failure ∈ failures) (hfailure' : failure' ∈ failures) :
    (∃ group ∈ groupByFile tree root failures,
      failure ∈ group.failures ∧ failure' ∈ group.failures) ↔
    resolveFileName tree root failure.file = resolveFileName tree root failure'.file := by
  have hpartition := isStablePartition_groupByFile tree root failures
  constructor
  · intro hgroup
    obtain ⟨group, hgroup, hmem, hmem'⟩ := hgroup
    rw [hpartition.failures_eq group hgroup, List.mem_filter, decide_eq_true_iff] at hmem hmem'
    exact hmem.2.trans hmem'.2.symm
  · intro hname
    have hnamed : resolveFileName tree root failure.file ∈
        failures.map fun failure => resolveFileName tree root failure.file :=
      List.mem_map.mpr ⟨failure, hfailure, rfl⟩
    -- A name that occurs has a group, and the group has all failures of its name.
    obtain ⟨group, hgroup, hfile⟩ := List.mem_map.mp ((hpartition.mem_file_iff _).mpr hnamed)
    refine ⟨group, hgroup, ?_, ?_⟩
    · rw [hpartition.failures_eq group hgroup, List.mem_filter, decide_eq_true_iff]
      exact ⟨hfailure, hfile.symm⟩
    · rw [hpartition.failures_eq group hgroup, List.mem_filter, decide_eq_true_iff]
      exact ⟨hfailure', hname.symm.trans hfile.symm⟩

theorem resolveFileName_eq_iff_of_isMissing (hroot : root.IsDescent)
    (hfile : IsMissing tree root file) (hother : IsMissing tree root other) :
    resolveFileName tree root file = resolveFileName tree root other ↔
      namedPlace root file = namedPlace root other ∧
        namedExcess root file = namedExcess root other := by
  unfold resolveFileName
  rw [resolvedPath_of_isMissing hroot hfile, resolvedPath_of_isMissing hroot hother]
  constructor
  · intro hname
    obtain ⟨hexcess, hplace⟩ := eq_of_nameFrom_eq hroot (hroot.isProper_namedPlace file)
      (hroot.isProper_namedPlace other) hname
    exact ⟨hplace, hexcess⟩
  · intro hsame
    rw [hsame.1, hsame.2]

/-- Two texts that name nothing that is there get one name exactly if they lead to one place and
have as many steps in excess, and exactly then their failures are in one group.  In particular, one
place has one name as long as its spellings do not lead up from the root directory of the tree. -/
theorem resolveFileName_eq_iff_place_and_excess (tree : Tree) (root : Path)
    (hroot : root.IsDescent) :
    (∀ file other, IsMissing tree root file → IsMissing tree root other →
      (resolveFileName tree root file = resolveFileName tree root other ↔
        namedPlace root file = namedPlace root other ∧
          namedExcess root file = namedExcess root other)) ∧
    ∀ failures : List Failure, ∀ failure ∈ failures, ∀ failure' ∈ failures,
      IsMissing tree root failure.file → IsMissing tree root failure'.file →
        ((∃ group ∈ groupByFile tree root failures,
          failure ∈ group.failures ∧ failure' ∈ group.failures) ↔
        namedPlace root failure.file = namedPlace root failure'.file ∧
          namedExcess root failure.file = namedExcess root failure'.file) := by
  refine ⟨fun file other hfile hother => ?_, ?_⟩
  · exact resolveFileName_eq_iff_of_isMissing hroot hfile hother
  · intro failures failure hfailure failure' hfailure' hmissing hmissing'
    rw [exists_group_iff hfailure hfailure',
      resolveFileName_eq_iff_of_isMissing hroot hmissing hmissing']

/-- Three spellings of one place; the last one leads up from the root directory of the tree. -/
def spellingsOutside : List Failure := [.clamped "../../a.ts" "semi" 0 0 "",
  .clamped "src/../../.././/a.ts" "semi" 0 0 "", .clamped "../../../a.ts" "semi" 0 0 ""]

theorem resolveFileName_eq_iff_place_and_excess_outside :
    let root := Location.path ["work", "project"]
    resolveFileName {} root "../../a.ts" = resolveFileName {} root "src/../../.././/a.ts" ∧
      ∃ group ∈ groupByFile {} root spellingsOutside,
        spellingsOutside[0] ∈ group.failures ∧ spellingsOutside[1] ∈ group.failures := by
  intro root
  have hroot : root.IsDescent := Path.IsCanonical.isDescent ⟨["work", "project"], by decide, rfl⟩
  have hfirst : IsMissing {} root "../../a.ts" := ⟨.notFound, by decide⟩
  have hsecond : IsMissing {} root "src/../../.././/a.ts" := ⟨.notFound, by decide⟩
  obtain ⟨hnames, hgroups⟩ := resolveFileName_eq_iff_place_and_excess {} root hroot
  constructor
  · exact (hnames _ _ hfirst hsecond).mpr ⟨by decide, by decide⟩
  · exact (hgroups spellingsOutside spellingsOutside[0] (List.getElem_mem _) spellingsOutside[1]
      (List.getElem_mem _) hfirst hsecond).mpr ⟨by decide, by decide⟩

/-- A step in excess sets apart two names of one place, and with them two groups. -/
theorem resolveFileName_tells_excess :
    let root := Location.path ["work", "project"]
    IsMissing {} root "../../a.ts" ∧ IsMissing {} root "../../../a.ts" ∧
      namedPlace root "../../a.ts" = namedPlace root "../../../a.ts" ∧
      resolveFileName {} root "../../a.ts" = "/a.ts" ∧
      resolveFileName {} root "../../../a.ts" = "/../a.ts" ∧
      ¬ ∃ group ∈ groupByFile {} root spellingsOutside,
        spellingsOutside[0] ∈ group.failures ∧ spellingsOutside[2] ∈ group.failures := by
  refine ⟨⟨.notFound, by decide⟩, ⟨.notFound, by decide⟩, by decide, by decide, by decide, ?_⟩
  rw [exists_group_iff (List.getElem_mem _) (List.getElem_mem _)]
  decide

end LintRepair
