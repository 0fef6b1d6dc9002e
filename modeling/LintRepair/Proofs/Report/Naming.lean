import Mathlib.Data.List.Basic
import Mathlib.Tactic.Common
import LintRepair.Proofs.Path.Relative
import LintRepair.Proofs.Tree.Walk
import LintRepair.Report.Group

/-!
# One name for every file

A report names a file by a text, and `namedPlace` is the place that the text leads to from the root
directory of the run.  Without links two facts say what `resolveFileName` does with it.  The name
that it gives leads to the same place as the text (`namedPlace_resolveFileName`), so no file is
mistaken for another; and the name depends on nothing but the place if any path leads there in the
tree (`resolveFileName_eq`), so a file that can be read has one name whatever its spellings.

A file that is not there may keep several names: leading `..` that are in excess at the root
directory stay in its normal form.
-/

namespace LintRepair

/-- The path of a place whose way there consists of names. -/
def Path.IsCanonical (path : Path) : Prop :=
  ∃ place : Location, place.IsProper ∧ path = place.path

/-- The place that the name of a file leads to by its text, from the root directory of a run. -/
def namedPlace (root : Path) (file : String) : Location :=
  (root.join (Path.ofText file)).place

variable {tree : Tree} {root path : Path} {place : Location} {file : String}

theorem Path.IsCanonical.isDescent (hroot : root.IsCanonical) : root.IsDescent := by
  obtain ⟨home, hhome, rfl⟩ := hroot
  rw [← Path.rising_zero]
  exact ⟨Path.isCut_rising 0 hhome, home, Path.components_rising 0 hhome⟩

namespace Path.IsDescent

theorem isAbsolute_join (hroot : root.IsDescent) (file : String) :
    (root.join (Path.ofText file)).isAbsolute :=
  Path.isAbsolute_join hroot.isAbsolute (Path.isCut_ofText file).ne_nil

theorem isCut_join (hroot : root.IsDescent) (file : String) :
    (root.join (Path.ofText file)).IsCut :=
  Path.isCut_join hroot.isAbsolute hroot.isCut (Path.isCut_ofText file)

theorem isProper_namedPlace (hroot : root.IsDescent) (file : String) :
    (namedPlace root file).IsProper :=
  Path.isProper_place (hroot.isCut_join file)

end Path.IsDescent

/-! ## Names lead back -/

/-- A name is what is left of a path inside the root directory, and the whole path outside it. -/
theorem Path.IsDescent.nameFrom_cases (hroot : root.IsDescent) (hplace : place.IsProper)
    (ups : Nat) :
    (∃ rest : List Path.Component, (∀ component ∈ rest, component.IsStep) ∧
      (Path.rising ups place).components = root.components ++ rest ∧
      Path.ofText (nameFrom root (Path.rising ups place)) = Path.ofComponents rest) ∨
    (¬ root.components <+: (Path.rising ups place).components ∧
      Path.ofText (nameFrom root (Path.rising ups place)) = Path.rising ups place) := by
  unfold nameFrom Path.componentsBehind?
  by_cases hinside : root.components <+: (Path.rising ups place).components
  · obtain ⟨rest, hrest⟩ := hinside
    have hsteps : ∀ component ∈ rest, component.IsStep := by
      intro component hcomponent
      rw [hroot.components_eq, Path.components_rising ups hplace, List.cons_append,
        List.cons.injEq] at hrest
      -- What is behind the root directory is `..` and names, since the path has no other steps.
      have hmem : component ∈ List.replicate ups Path.Component.up ++ place.map .name :=
        hrest.2 ▸ List.mem_append_right _ hcomponent
      rcases List.mem_append.mp hmem with hup | hname
      · exact Or.inl (List.eq_of_mem_replicate hup)
      · obtain ⟨name, hin, rfl⟩ := List.mem_map.mp hname
        exact Or.inr ⟨name, rfl, hplace name hin⟩
    rw [← hrest, if_pos (List.prefix_append _ _), List.drop_left]
    exact Or.inl ⟨rest, hsteps, rfl, Path.ofText_text (Path.isCut_ofComponents hsteps)⟩
  · rw [if_neg hinside]
    exact Or.inr ⟨hinside, Path.ofText_text (Path.isCut_rising ups hplace)⟩

/-- Seen from the root directory, a name has the normal form of the path that it was made from. -/
theorem Path.IsDescent.normalized_join_nameFrom (hroot : root.IsDescent) (hplace : place.IsProper)
    (ups : Nat) :
    (root.join (Path.ofText (nameFrom root (Path.rising ups place)))).normalized =
      Path.rising ups place := by
  rcases hroot.nameFrom_cases hplace ups with ⟨rest, hsteps, hrest, hname⟩ | ⟨-, hname⟩
  · -- Inside the root directory joining adds again what was left out.
    have hcomponents : (root.join (Path.ofComponents rest)).components =
        (Path.rising ups place).components := by
      rw [Path.components_join hroot.isAbsolute (Path.isAbsolute_ofComponents hsteps)
        (Path.pieces_ofComponents_ne_nil rest), Path.filterMap_pieces_ofComponents hsteps, hrest]
    have hnormal := Path.normalized_rising ups hplace
    unfold Path.normalized at hnormal ⊢
    rw [hname, hcomponents]
    exact hnormal
  · -- Outside it joining an absolute path gives that path.
    have hjoin : root.join (Path.rising ups place) = Path.rising ups place := by
      unfold Path.join
      rw [Path.isAbsolute_rising, Bool.true_or, if_pos rfl]
    rw [hname, hjoin, Path.normalized_rising ups hplace]

/-- A name leads where the path leads that it was made from. -/
theorem Path.IsDescent.namedPlace_nameFrom (hroot : root.IsDescent) (hplace : place.IsProper)
    (ups : Nat) : namedPlace root (nameFrom root (Path.rising ups place)) = place := by
  have hnormal := hroot.normalized_join_nameFrom hplace ups
  rw [Path.normalized_eq_rising (hroot.isAbsolute_join _)] at hnormal
  have hsame := congrArg Path.place hnormal
  rw [Path.place_rising ups hplace,
    Path.place_rising _ (Path.isProper_place (hroot.isCut_join _))] at hsame
  exact hsame

/-! ## The name of a file -/

theorem exists_normalized_join (hroot : root.IsCanonical) (file : String) :
    ∃ ups, (root.join (Path.ofText file)).normalized = Path.rising ups (namedPlace root file) :=
  ⟨_, Path.normalized_eq_rising (hroot.isDescent.isAbsolute_join file)⟩

/-- A canonical path of a file is the path of its place. -/
theorem canonical_normalized_join (hfree : tree.LinkFree) (hroot : root.IsCanonical)
    {canonical : Path}
    (hcanonical : tree.canonical (root.join (Path.ofText file)).normalized = .ok canonical) :
    canonical = (namedPlace root file).path := by
  obtain ⟨ups, hnormal⟩ := exists_normalized_join hroot file
  rw [hnormal] at hcanonical
  rw [Tree.eq_path_place_of_canonical hfree (Path.isAbsolute_rising ups _) hcanonical,
    Path.place_rising ups (hroot.isDescent.isProper_namedPlace file)]

/-- The path of a file leads up from the root directory, if anywhere, and then straight down. -/
theorem exists_resolvedPath (hfree : tree.LinkFree) (hroot : root.IsCanonical) (file : String) :
    ∃ ups, resolvedPath tree root file = Path.rising ups (namedPlace root file) := by
  unfold resolvedPath
  dsimp only
  split
  · next canonical hcanonical =>
    refine ⟨0, ?_⟩
    rw [Path.rising_zero, canonical_normalized_join hfree hroot hcanonical]
  · exact exists_normalized_join hroot file

/-- Links or not, the path of a file leads up from the root directory, if anywhere, and then
straight down. -/
theorem exists_resolvedPath_eq_rising (tree : Tree) (hroot : root.IsCanonical) (file : String) :
    ∃ (ups : Nat) (place : Location), place.IsProper ∧
      resolvedPath tree root file = Path.rising ups place := by
  obtain ⟨ups, hnormal⟩ := exists_normalized_join hroot file
  have hproper := hroot.isDescent.isProper_namedPlace file
  unfold resolvedPath
  dsimp only
  split
  · next canonical hcanonical =>
    rw [hnormal] at hcanonical
    have hstart : tree.start (Path.rising ups (namedPlace root file)) = [] :=
      Tree.start_of_isAbsolute (Path.isAbsolute_rising ups _)
    obtain ⟨place, hplace, hpath⟩ := Tree.exists_path_of_canonical
      (hstart ▸ Location.isProper_nil) (Path.isCut_rising ups hproper) hcanonical
    refine ⟨0, place, hplace, ?_⟩
    rw [Path.rising_zero, hpath]
  · exact ⟨ups, _, hproper, hnormal⟩

theorem resolvedPath_of_canonical (hfree : tree.LinkFree) (hroot : root.IsCanonical)
    {canonical : Path} (hcanonical : tree.canonical (namedPlace root file).path = .ok canonical) :
    resolvedPath tree root file = (namedPlace root file).path := by
  obtain ⟨ups, hnormal⟩ := exists_normalized_join hroot file
  have hrising := Tree.canonical_rising (hroot.isDescent.isProper_namedPlace file) hcanonical ups
  rw [← hnormal] at hrising
  unfold resolvedPath
  simp only [hrising]
  exact canonical_normalized_join hfree hroot hrising

/-- The one name of a file leads where its spelling does. -/
theorem namedPlace_resolveFileName (hfree : tree.LinkFree) (hroot : root.IsCanonical)
    (file : String) : namedPlace root (resolveFileName tree root file) = namedPlace root file := by
  obtain ⟨ups, hresolved⟩ := exists_resolvedPath hfree hroot file
  unfold resolveFileName
  rw [hresolved, hroot.isDescent.namedPlace_nameFrom (hroot.isDescent.isProper_namedPlace file)]

/-- A file that is there has one name. -/
theorem resolveFileName_eq (hfree : tree.LinkFree) (hroot : root.IsCanonical)
    (habsolute : path.isAbsolute) (hcut : path.IsCut)
    (hlocate : tree.locate path = .ok (namedPlace root file)) :
    resolveFileName tree root file = nameFrom root (namedPlace root file).path := by
  have hcanonical := Tree.canonical_of_locate hfree habsolute hcut hlocate
  unfold resolveFileName
  rw [resolvedPath_of_canonical hfree hroot hcanonical]

/-- If a file is found by the name of its place, it gets this name from the spellings that lead to
the place and from no others. -/
theorem resolveFileName_eq_iff (hfree : tree.LinkFree) (hroot : root.IsCanonical)
    (hlocate : tree.locate (root.join (Path.ofText (nameFrom root place.path))) = .ok place) :
    resolveFileName tree root file = nameFrom root place.path ↔ namedPlace root file = place := by
  have habsolute := hroot.isDescent.isAbsolute_join (nameFrom root place.path)
  have hcut := hroot.isDescent.isCut_join (nameFrom root place.path)
  constructor
  · intro hname
    have hplace : place.IsProper := by
      rw [Tree.eq_place_of_locate hfree habsolute hlocate]
      exact Path.isProper_place hcut
    rw [← namedPlace_resolveFileName hfree hroot, hname, ← Path.rising_zero,
      hroot.isDescent.namedPlace_nameFrom hplace]
  · rintro rfl
    exact resolveFileName_eq hfree hroot habsolute hcut hlocate

end LintRepair
