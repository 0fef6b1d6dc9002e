import Mathlib.Data.List.Basic
import Mathlib.Tactic.Common
import LintRepair.Proofs.Path.Ancestors
import LintRepair.Proofs.Tree.Write

/-!
# Trees that grow

A tree has grown when nothing is gone and directories are still directories.  Without links every
walk that arrived still arrives at the same place (`Grows.locate_eq`), so what has been said of a
path stays true of it.

Making directories adds some and changes nothing else.  Each of them is where one of the paths above
leads for which directories were to be made, and as the tree only grows it is still there at the end
(`addsDirectories_makeDirectories`).
-/

namespace LintRepair.Tree

variable {a b c tree : Tree} {path above : Path} {place directory current : Location}
  {entry : Entry} {name : String} {steps : List String} {links allowance : Nat} {followLast : Bool}
  {P : Path → Prop}

/-! ## Growing -/

structure Grows (before after : Tree) : Prop where
  start : after.workingDirectory = before.workingDirectory
  entry : ∀ place, before.entry? place ≠ none → after.entry? place ≠ none
  directory : ∀ place, before.entry? place = some .directory →
    after.entry? place = some .directory

/-- Putting a directory or a file somewhere takes nothing away, as long as no file comes in the
place of a directory. -/
theorem grows_set (hplace : place ≠ [])
    (hentry : entry = .directory ∨ tree.entry? place ≠ some .directory) :
    tree.Grows (tree.set place entry) where
  start := rfl
  entry := by
    intro other hother
    by_cases heq : other = place
    · rw [heq, entry_set_self hplace]
      simp
    · rwa [entry_set_of_ne heq]
  directory := by
    intro other hother
    by_cases heq : other = place
    · rw [heq, entry_set_self hplace]
      rcases hentry with rfl | hfile
      · rfl
      · exact absurd (heq ▸ hother) hfile
    · rwa [entry_set_of_ne heq]

namespace Grows

theorem walk_eq (h : a.Grows b) (hfree : a.LinkFree) (hfree' : b.LinkFree)
    (hwalk : a.walk followLast links current steps = .ok place) :
    b.walk followLast links current steps = .ok place := by
  induction steps generalizing current with
  | nil =>
      rw [walk_nil] at hwalk ⊢
      exact hwalk
  | cons first rest ih =>
      rw [walk_cons hfree, FirstError.bind_eq_ok_iff] at hwalk
      obtain ⟨next, hfirst, hrest⟩ := hwalk
      obtain ⟨hcurrent, hnext, hname⟩ := (walk_singleton_eq_ok_iff hfree).mp hfirst
      have hfirst' : b.walk followLast links current [first] = .ok next := by
        refine (walk_singleton_eq_ok_iff hfree').mpr ⟨h.directory current hcurrent, hnext, ?_⟩
        exact hname.imp_right fun hname => hname.imp_right fun ⟨hshort, hentry⟩ =>
          ⟨hshort, h.entry _ hentry⟩
      rw [walk_cons hfree', hfirst', FirstError.bind_ok]
      exact ih hrest

theorem walkFrom_eq (h : a.Grows b) (hfree : a.LinkFree) (hfree' : b.LinkFree)
    (hwalk : a.walkFrom path steps = .ok place) : b.walkFrom path steps = .ok place := by
  have hstart : b.start path = a.start path := by
    unfold Tree.start
    rw [h.start]
  unfold walkFrom at hwalk ⊢
  rw [hstart]
  exact h.walk_eq hfree hfree' hwalk

/-- A path leads where it led. -/
theorem locate_eq (h : a.Grows b) (hfree : a.LinkFree) (hfree' : b.LinkFree)
    (hlocate : a.locate path = .ok place) : b.locate path = .ok place := by
  rw [locate_eq_ok_iff] at hlocate ⊢
  exact ⟨hlocate.1, h.walkFrom_eq hfree hfree' hlocate.2⟩

theorem locateLast_eq (h : a.Grows b) (hfree : a.LinkFree) (hfree' : b.LinkFree)
    {last : Option String} (hlast : a.locateLast path = .ok (directory, last)) :
    b.locateLast path = .ok (directory, last) := by
  rw [locateLast_eq_ok_iff, walkAll_eq_ok_iff] at hlast ⊢
  obtain ⟨⟨hcheck, hwalk⟩, hdirectory, hlast⟩ := hlast
  exact ⟨⟨hcheck, h.walkFrom_eq hfree hfree' hwalk⟩, h.directory _ hdirectory, hlast⟩

end Grows

/-- A path leads to the place of its last step if something is there, and behind a slash at the end
it has to be a directory. -/
theorem locate_of_locateLast (hfree : tree.LinkFree)
    (hlast : tree.locateLast path = .ok (directory, some name)) (hhere : name ≠ ".")
    (hup : name ≠ "..") (hshort : name.utf8ByteSize ≤ maxNameLength)
    (hentry : tree.entry? (directory ++ [name]) ≠ none)
    (hend : path.endsWithSlash = false ∨
      tree.entry? (directory ++ [name]) = some .directory) :
    tree.locate path = .ok (directory ++ [name]) := by
  rw [locateLast_eq_ok_iff, walkAll_eq_ok_iff] at hlast
  obtain ⟨⟨hcheck, hwalk⟩, hdirectory, hname⟩ := hlast
  have hsteps : path.steps = path.steps.dropLast ++ [name] :=
    (List.dropLast_append_getLast? name hname).symm
  have hstep : tree.walk true maxLinks directory [name] = .ok (directory ++ [name]) :=
    (walk_singleton_eq_ok_iff hfree).mpr ⟨hdirectory,
      (Location.step_of_ne hhere hup directory).symm, Or.inr (Or.inr ⟨hshort, hentry⟩)⟩
  have harrives : tree.walkFrom path path.steps = .ok (directory ++ [name]) := by
    unfold walkFrom at hwalk ⊢
    rw [hsteps, walk_append hfree, hwalk, FirstError.bind_ok, hstep]
  refine locate_eq_ok_iff.mpr ⟨hcheck, ?_⟩
  unfold walkFrom at harrives ⊢
  unfold Path.allSteps
  rw [walk_append hfree, harrives, FirstError.bind_ok]
  -- A slash at the end is one more step, to the place itself.
  split
  · next hslash =>
    have hmade := hend.resolve_left (by simp [hslash])
    exact (walk_singleton_eq_ok_iff hfree).mpr ⟨hmade, rfl, Or.inl rfl⟩
  · exact walk_nil

theorem grows_set_of_replacedPlace (hreplaced : tree.replacedPlace path = .ok place)
    (entry : Entry) : tree.Grows (tree.set place entry) := by
  obtain ⟨hplace, hfile⟩ := ne_directory_of_replacedPlace hreplaced
  exact grows_set hplace (Or.inr hfile)

/-- Where a file is put it is found. -/
theorem locate_set_of_replacedPlace (hfree : tree.LinkFree)
    (hreplaced : tree.replacedPlace path = .ok place)
    (hfree' : (tree.set place entry).LinkFree) :
    (tree.set place entry).locate path = .ok place := by
  have hgrows := grows_set_of_replacedPlace hreplaced entry
  obtain ⟨-, -, hrenamed⟩ := FirstError.bind_eq_ok_iff.mp hreplaced
  obtain ⟨directory, name, hlast, hhere, hup, hshort, hend, -, rfl⟩ :=
    renamedPlace_eq_ok_iff.mp hrenamed
  refine locate_of_locateLast hfree' (hgrows.locateLast_eq hfree hfree' hlast) hhere hup hshort
    ?_ (Or.inl hend)
  rw [entry_set_self (by simp)]
  simp

/-! ## New directories -/

/-- All that is new are directories to which certain paths lead. -/
structure AddsDirectories (before : Tree) (P : Path → Prop) (after : Tree) : Prop where
  start : after.workingDirectory = before.workingDirectory
  modes : after.directoryModes = before.directoryModes
  entry : ∀ place, after.entry? place = before.entry? place ∨
    before.entry? place = none ∧ after.entry? place = some .directory ∧
      ∃ path, P path ∧ after.locate path = .ok place

namespace AddsDirectories

theorem refl (tree : Tree) : tree.AddsDirectories P tree := ⟨rfl, rfl, fun _ => Or.inl rfl⟩

theorem grows (h : a.AddsDirectories P b) : a.Grows b where
  start := h.start
  entry := by
    intro place hplace
    rcases h.entry place with hsame | ⟨hnone, -⟩
    · rwa [hsame]
    · exact absurd hnone hplace
  directory := by
    intro place hplace
    rcases h.entry place with hsame | ⟨-, hdirectory, -⟩
    · rwa [hsame]
    · exact hdirectory

theorem keepsOff (h : a.AddsDirectories P b) {off : Location → Prop} : a.KeepsOff off b :=
  fun place => Or.inr ((h.entry place).imp_right fun hnew => ⟨hnew.1, hnew.2.1⟩)

theorem linkFree (h : a.AddsDirectories P b) (hfree : a.LinkFree) : b.LinkFree :=
  h.keepsOff.linkFree hfree

theorem trans (hfree : a.LinkFree) (hab : a.AddsDirectories P b) (hbc : b.AddsDirectories P c) :
    a.AddsDirectories P c where
  start := hbc.start.trans hab.start
  modes := hbc.modes.trans hab.modes
  entry := by
    have hfree' := hab.linkFree hfree
    intro place
    rcases hab.entry place with hsame | ⟨hnone, hdirectory, path, hpath, hlocate⟩
    · rcases hbc.entry place with hsame' | ⟨hnone', hnew⟩
      · exact Or.inl (hsame'.trans hsame)
      · exact Or.inr ⟨hsame ▸ hnone', hnew⟩
    · -- What was new in between is still where its path leads.
      exact Or.inr ⟨hnone, hbc.grows.directory _ hdirectory, path, hpath,
        hbc.grows.locate_eq hfree' (hbc.linkFree hfree') hlocate⟩

theorem directoryMode_eq (h : a.AddsDirectories P b) (place : Location) :
    b.directoryMode place = a.directoryMode place := by
  unfold directoryMode
  rw [h.modes]

theorem mode_eq (h : a.AddsDirectories P b) (hfree : a.LinkFree) {mode : Nat}
    (hmode : a.mode? path = some mode) : b.mode? path = some mode := by
  unfold Tree.mode? at hmode ⊢
  split at hmode
  · next place hlocate =>
    rw [h.grows.locate_eq hfree (h.linkFree hfree) hlocate]
    simp only [h.directoryMode_eq]
    rcases h.entry place with hsame | ⟨hnone, -⟩
    · rwa [hsame]
    · -- Where a directory is new the path led nowhere before.
      rw [hnone] at hmode
      exact absurd hmode (by simp)
  · exact absurd hmode (by simp)

end AddsDirectories

theorem addsDirectories_makeDirectory (hfree : a.LinkFree) (hpath : P path)
    (hmade : a.makeDirectory path = .ok b) : a.AddsDirectories P b := by
  obtain ⟨directory, name, hlast, hhere, hup, hshort, hnone, rfl⟩ :=
    makeDirectory_eq_ok_iff.mp hmade
  have hplace : directory ++ [name] ≠ [] := by simp
  have hgrows : a.Grows (a.set (directory ++ [name]) .directory) :=
    grows_set hplace (Or.inl rfl)
  have hfree' : (a.set (directory ++ [name]) .directory).LinkFree :=
    linkFree_set hfree (by simp) hplace
  have hentry : Tree.entry? (a.set (directory ++ [name]) .directory) (directory ++ [name]) =
      some .directory := entry_set_self hplace
  refine ⟨rfl, rfl, fun place => ?_⟩
  by_cases heq : place = directory ++ [name]
  · rw [heq]
    exact Or.inr ⟨hnone, hentry, path, hpath,
      locate_of_locateLast hfree' (hgrows.locateLast_eq hfree hfree' hlast) hhere hup hshort
        (by simp [hentry]) (Or.inr hentry)⟩
  · exact Or.inl (entry_set_of_ne heq)

theorem addsDirectories_ensureDirectory (hfree : tree.LinkFree) (hpath : P path) :
    tree.AddsDirectories P (tree.ensureDirectory path).tree := by
  unfold ensureDirectory
  split
  · next made hmade => exact addsDirectories_makeDirectory hfree hpath hmade
  · exact AddsDirectories.refl tree

/-- Directories are made for a path and the paths above it, whichever of them are missing. -/
theorem addsDirectories_makeDirectoriesWithin
    (hparent : ∀ path above, P path → path.parent? = some above → P above) (hfree : tree.LinkFree)
    (hpath : P path) : tree.AddsDirectories P (makeDirectoriesWithin allowance tree path).tree := by
  induction allowance generalizing path with
  | zero => exact AddsDirectories.refl tree
  | succ allowance ih =>
      rw [makeDirectoriesWithin]
      split
      · exact AddsDirectories.refl tree
      dsimp only
      split
      · next above _ habove =>
        have hfirst := ih (hparent path above hpath habove)
        split
        · exact hfirst.trans hfree (addsDirectories_ensureDirectory (hfirst.linkFree hfree) hpath)
        · exact hfirst
      · exact addsDirectories_ensureDirectory hfree hpath

theorem addsDirectories_makeDirectories (hfree : tree.LinkFree) {start : Path}
    (hpath : path ∈ start.ancestors) :
    tree.AddsDirectories (· ∈ start.ancestors) (tree.makeDirectories path).tree :=
  addsDirectories_makeDirectoriesWithin (fun _ _ => Path.mem_ancestors_of_parent) hfree hpath

end LintRepair.Tree
