import Mathlib.Data.List.Basic
import Mathlib.Tactic.Common
import LintRepair.Proofs.Tree.Write

/-!
# Writing beside and renaming

`replaceFile` does not touch the file that it replaces.  It writes another one beside it, under a
name that is longer than all others, and renames that when it is complete.  What is left of this can
be said without the file in between (`replaceFile_eq`): the new file has the place of the old one,
or the tree is to the letter what it was.

Strategy:

* no text of the tree or of the path is the unused name (`unusedName_notMem`);
* a walk that never takes a step of that name does not see the file (`walk_set_beside`), so that the
  path is renamed to the place that it had before (`renamedPlace_set_beside`);
* removing the file gives back the tree (`erase_set_beside`).
-/

namespace LintRepair.Tree

variable {tree : Tree} {path : Path} {beside current place : Location} {entry : Entry}
  {name avoided : String} {steps : List String} {content : Content} {mode links : Nat}
  {followLast : Bool}

/-! ## Unused names -/

theorem unusedName_notMem (tree : Tree) (path : Path) :
    tree.unusedName path ∉ path.pieces ++ tree.usedTexts := by
  intro hmem
  -- The name holds every text and four characters more.
  have hsub : (tree.unusedName path).toList.Sublist
      ((path.pieces ++ tree.usedTexts).flatMap String.toList) := by
    rw [List.flatMap_def]
    exact List.sublist_flatten_of_mem (List.mem_map_of_mem hmem)
  have hlength := hsub.length_le
  have hname : (tree.unusedName path).toList =
      ".tmp".toList ++ (path.pieces ++ tree.usedTexts).flatMap String.toList := by
    unfold unusedName
    rw [String.toList_append, String.toList_join]
  have hfront : ".tmp".toList.length = 4 := by decide
  rw [hname, List.length_append, hfront] at hlength
  omega

theorem unusedName_notMem_way (tree : Tree) (path : Path) :
    tree.unusedName path ∉ tree.start path ++ path.steps := by
  have hunused := unusedName_notMem tree path
  unfold usedTexts at hunused
  simp only [List.mem_append, not_or] at hunused ⊢
  constructor
  · unfold start
    split
    · exact List.not_mem_nil
    · exact hunused.2.1
  · exact fun hstep => hunused.1 (List.mem_of_mem_filter hstep)

theorem unusedName_notMem_entry (path : Path) {found : Location × Entry}
    (hfound : found ∈ tree.entries) : tree.unusedName path ∉ found.1 := by
  intro hname
  refine unusedName_notMem tree path (List.mem_append_right _ (List.mem_append_right _ ?_))
  refine List.mem_flatMap.mpr ⟨found, hfound, ?_⟩
  obtain ⟨location, entry⟩ := found
  cases entry with
  | link target => exact List.mem_cons_of_mem target hname
  | file content mode => exact hname
  | directory => exact hname

/-! ## A file beside the way -/

theorem notMem_step (hcurrent : avoided ∉ current) (hname : avoided ≠ name) :
    avoided ∉ current.step name := by
  unfold Location.step
  split
  · exact hcurrent
  split
  · exact fun hmem => hcurrent (List.dropLast_subset _ hmem)
  · simp [hcurrent, hname]

theorem linkFree_set_beside (hfree : tree.LinkFree) :
    (tree.set (beside ++ [avoided]) (.file content mode)).LinkFree :=
  linkFree_set hfree (by simp) (by simp)

theorem entry_set_beside (hplace : avoided ∉ place) :
    Tree.entry? (tree.set (beside ++ [avoided]) entry) place = tree.entry? place :=
  entry_set_of_ne fun heq => hplace (by simp [heq])

/-- A walk does not see a file with a name that is not on its way. -/
theorem walk_set_beside (hfree : tree.LinkFree) (hcurrent : avoided ∉ current)
    (hsteps : avoided ∉ steps) :
    (tree.set (beside ++ [avoided]) (.file content mode)).walk followLast links current steps =
      tree.walk followLast links current steps := by
  refine walk_eq_of_agree (P := fun place => avoided ∉ place) hfree (linkFree_set_beside hfree)
    ?_ ?_ hcurrent
  · exact fun place => entry_set_beside
  · intro place hplace step hstep
    exact notMem_step hplace fun heq => hsteps (heq ▸ hstep)

/-- Nor does a walk come to such a name. -/
theorem notMem_of_walk (hfree : tree.LinkFree) (hcurrent : avoided ∉ current)
    (hsteps : avoided ∉ steps) (hwalk : tree.walk followLast links current steps = .ok place) :
    avoided ∉ place := by
  rw [eq_foldl_of_walk hfree hwalk]
  intro hmem
  have hway := (Location.foldl_step_sublist _ _).subset hmem
  exact (List.mem_append.mp hway).elim hcurrent hsteps

theorem locateLast_set_beside (hfree : tree.LinkFree)
    (havoided : avoided ∉ tree.start path ++ path.steps) :
    (tree.set (beside ++ [avoided]) (.file content mode)).locateLast path =
      tree.locateLast path := by
  obtain ⟨hstart, hsteps⟩ := not_or.mp (mt List.mem_append.mpr havoided)
  have hdropLast : avoided ∉ path.steps.dropLast := fun hmem =>
    hsteps (List.dropLast_subset _ hmem)
  unfold locateLast walkAll walkFrom
  have hsame : (tree.set (beside ++ [avoided]) (.file content mode)).start path =
      tree.start path := rfl
  rw [hsame, walk_set_beside hfree hstart hdropLast]
  cases path.check with
  | error error => rfl
  | ok value =>
  cases hwalk : tree.walk true maxLinks (tree.start path) path.steps.dropLast with
  | error obstacle => rfl
  | ok directory =>
      have hdirectory := notMem_of_walk hfree hstart hdropLast hwalk
      simp only [FirstError.mapError_ok, FirstError.bind_ok, entry_set_beside hdirectory]

theorem placeInside_set_beside {last : Option String}
    (hplace : ∀ name, last = some name → avoided ∉ current ++ [name]) :
    (tree.set (beside ++ [avoided]) entry).placeInside path current last =
      tree.placeInside path current last := by
  unfold placeInside
  split
  · rfl
  · rfl
  · rfl
  · next name _ _ => rw [entry_set_beside (hplace name rfl)]

theorem renamedPlace_set_beside (hfree : tree.LinkFree)
    (havoided : avoided ∉ tree.start path ++ path.steps) :
    (tree.set (beside ++ [avoided]) (.file content mode)).renamedPlace path =
      tree.renamedPlace path := by
  unfold renamedPlace
  rw [locateLast_set_beside hfree havoided]
  cases hlast : tree.locateLast path with
  | error error => rfl
  | ok found =>
      obtain ⟨directory, last⟩ := found
      obtain ⟨hwalk, -, hlast⟩ := locateLast_eq_ok_iff.mp hlast
      have hfrom := (walkAll_eq_ok_iff.mp hwalk).2
      obtain ⟨hstart, hsteps⟩ := not_or.mp (mt List.mem_append.mpr havoided)
      have hdirectory := notMem_of_walk hfree hstart
        (fun hmem => hsteps (List.dropLast_subset _ hmem)) hfrom
      refine placeInside_set_beside fun name hname => ?_
      rw [List.mem_append, List.mem_singleton, not_or]
      exact ⟨hdirectory, fun heq => hsteps (heq ▸ List.mem_of_getLast? (hlast.trans hname))⟩

/-! ## The file is gone again -/

theorem setEntry_of_forall_ne {entries : List (Location × Entry)}
    (hne : ∀ found ∈ entries, found.1 ≠ place) :
    setEntry place entry entries = entries ++ [(place, entry)] := by
  induction entries with
  | nil => rfl
  | cons first rest ih =>
      rw [List.forall_mem_cons] at hne
      rw [setEntry, if_neg hne.1, ih hne.2, List.cons_append]

theorem erase_set_beside (hentries : ∀ found ∈ tree.entries, avoided ∉ found.1) :
    (tree.set (beside ++ [avoided]) entry).erase (beside ++ [avoided]) = tree := by
  have hkept : ∀ found ∈ tree.entries, ¬ beside ++ [avoided] <+: found.1 := by
    intro found hfound hbehind
    exact hentries found hfound (hbehind.subset (by simp))
  have hset : setEntry (beside ++ [avoided]) entry tree.entries =
      tree.entries ++ [(beside ++ [avoided], entry)] :=
    setEntry_of_forall_ne fun found hfound heq => hkept found hfound (heq ▸ List.prefix_refl _)
  have hfilter : tree.entries.filter
      (fun found => !(beside ++ [avoided]).isPrefixOf found.1) = tree.entries := by
    refine List.filter_eq_self.mpr fun found hfound => ?_
    rw [Bool.not_eq_true', ← Bool.not_eq_true, List.isPrefixOf_iff_prefix]
    exact hkept found hfound
  unfold erase set
  rw [hset, List.filter_append, hfilter]
  simp

/-- Either the new file has the place where the path leads, or nothing has happened. -/
theorem replaceFile_eq (hfree : tree.LinkFree) (path : Path) (content : String) (mode : Nat) :
    tree.replaceFile path content mode =
      match tree.replacedPlace path with
      | .ok place => ⟨tree.set place (.file (.text content) mode), .ok ()⟩
      | .error error => ⟨tree, .error error⟩ := by
  unfold replaceFile replacedPlace
  cases tree.besidePlace path with
  | error error => rfl
  | ok beside =>
      have hentries : ∀ found ∈ tree.entries, tree.unusedName path ∉ found.1 := fun found =>
        unusedName_notMem_entry path
      dsimp only [FirstError.bind_ok]
      unfold rename
      rw [renamedPlace_set_beside hfree (unusedName_notMem_way tree path),
        entry_set_self (by simp), erase_set_beside hentries]
      cases tree.renamedPlace path with
      | error error => rfl
      | ok place => rfl

end LintRepair.Tree
