import Mathlib.Data.List.Basic
import Mathlib.Tactic.Common
import LintRepair.Proofs.Persist.Steps
import LintRepair.Proofs.Report.Group
import LintRepair.Proofs.Report.Naming

/-!
# Where copies go

A report names files by any text, and a copy of a file goes to the directory for copies under the
path that the file has from the root directory.  `LeadsFrom` says what this path is, and a file has
no copy exactly when it has no such path or one that leads up (`copyPath_of_outside`,
`copyPath_of_up`).  In all other cases nothing but names is put behind the directory
(`persistTarget_of_names`), so that the copy is inside it whatever the directory is called.

Two groups of a run never share a copy.  The name of a group says all of the path of its copy: if
there is a copy at all, the path inside the directory is the name, letter by letter
(`text_of_copyPath_resolveFileName`).  The names of two groups differ, and so do their copies.
Links in the tree change nothing about this.
-/

namespace LintRepair

open LintRepair.Path (Component)

variable {root file : Path} {components : List Component} {tree : Tree} {dir : String}

/-- The components that lead from the root directory to a file.  A relative path starts there. -/
def LeadsFrom (root file : Path) (components : List Component) : Prop :=
  file.components = (if file.isAbsolute then root.components else []) ++ components

/-- A path leads from a directory down to names, by its components and by the place of its text. -/
def Path.IsInside (path directory : Path) (names : Location) : Prop :=
  names.IsProper ∧ path.components = directory.components ++ names.map .name ∧
    path.place = directory.place ++ names

/-! ## The path of a copy -/

theorem relativeComponents?_eq_some_iff :
    relativeComponents? root file = some components ↔ LeadsFrom root file components := by
  unfold relativeComponents? LeadsFrom Path.componentsBehind?
  cases file.isAbsolute with
  | false => simp [eq_comm]
  | true =>
      rw [if_pos rfl, if_pos rfl]
      constructor
      · intro hbehind
        split at hbehind
        · next hprefix =>
          obtain ⟨rest, hrest⟩ := hprefix
          rw [← hrest, List.drop_left, Option.some.injEq] at hbehind
          rw [← hrest, hbehind]
        · exact absurd hbehind (by simp)
      · intro hcomponents
        rw [hcomponents, if_pos (List.prefix_append _ _), List.drop_left]

theorem relativeComponents?_eq_none_iff :
    relativeComponents? root file = none ↔
      file.isAbsolute ∧ ¬ root.components <+: file.components := by
  unfold relativeComponents? Path.componentsBehind?
  cases file.isAbsolute with
  | false => simp
  | true => simp

/-- Nothing leads to the root directory behind the root directory. -/
theorem LeadsFrom.mem_cases (hroot : root.IsCanonical) (hcut : file.IsCut)
    (h : LeadsFrom root file components) {component : Component}
    (hcomponent : component ∈ components) : component = .here ∨ component.IsStep := by
  have hmem : component ∈ file.components := by
    rw [h]
    exact List.mem_append_right _ hcomponent
  rcases Path.isStep_of_mem_components hcut hmem with ⟨hslash, habsolute⟩ | hstep
  · -- The one component of this kind is the first one, which the root directory has as well.
    unfold LeadsFrom at h
    rw [if_pos habsolute, hroot.isDescent.components_eq, Path.components_of_isAbsolute habsolute,
      List.cons_append, List.cons.injEq] at h
    have hlater : component ∈ file.pieces.filterMap Path.componentOf? := by
      rw [h.2]
      exact List.mem_append_right _ hcomponent
    obtain ⟨piece, hpiece, hof⟩ := List.mem_filterMap.mp hlater
    exact Or.inr (Path.isStep_of_componentOf (hcut.no_slash piece hpiece) hof)
  · exact hstep

/-- Components that do not lead up are names when the dots are left out. -/
theorem exists_names (hcomponents : ∀ component ∈ components, component = .here ∨ component.IsStep)
    (hup : .up ∉ components) :
    ∃ names : Location, names.IsProper ∧ components.filter (· ≠ .here) = names.map .name := by
  induction components with
  | nil => exact ⟨[], Location.isProper_nil, rfl⟩
  | cons component rest ih =>
      rw [List.forall_mem_cons] at hcomponents
      rw [List.mem_cons, not_or] at hup
      obtain ⟨names, hproper, hnames⟩ := ih hcomponents.2 hup.2
      rcases hcomponents.1 with rfl | rfl | ⟨name, rfl, hname⟩
      · exact ⟨names, hproper, hnames⟩
      · exact absurd rfl hup.1
      · refine ⟨name :: names, List.forall_mem_cons.mpr ⟨hname, hproper⟩, ?_⟩
        rw [List.filter_cons_of_pos (by simp), hnames, List.map_cons]

theorem isStep_of_mem_names {names : Location} (hproper : names.IsProper) :
    ∀ component ∈ names.map Component.name, component.IsStep := by
  rw [List.forall_mem_map]
  exact fun name hname => Or.inr ⟨name, rfl, hproper name hname⟩

theorem copyPath_of_outside (habsolute : file.isAbsolute)
    (houtside : ¬ root.components <+: file.components) :
    copyPath root file = .error (.escapes file) := by
  unfold copyPath
  rw [relativeComponents?_eq_none_iff.mpr ⟨habsolute, houtside⟩]

theorem copyPath_of_up (h : LeadsFrom root file components) (hup : .up ∈ components) :
    copyPath root file = .error (.escapes file) := by
  unfold copyPath
  rw [relativeComponents?_eq_some_iff.mpr h]
  refine if_neg fun hall => ?_
  have hkept : Component.up ∈ components.filter (· ≠ .here) := by simpa using hup
  exact absurd (List.all_eq_true.mp hall _ hkept) (by simp)

theorem copyPath_of_names {names : Location} (h : LeadsFrom root file components)
    (hnames : components.filter (· ≠ .here) = names.map .name) :
    copyPath root file = .ok (Path.ofComponents (names.map .name)) := by
  unfold copyPath
  rw [relativeComponents?_eq_some_iff.mpr h]
  dsimp only
  rw [hnames]
  refine if_pos (List.all_eq_true.mpr ?_)
  rw [List.forall_mem_map]
  exact fun name _ => rfl

/-- A copy has no path, or one of names. -/
theorem copyPath_cases (hroot : root.IsCanonical) (hcut : file.IsCut) :
    (copyPath root file = .error (.escapes file) ∧
      ((file.isAbsolute ∧ ¬ root.components <+: file.components) ∨
        ∃ components, LeadsFrom root file components ∧ .up ∈ components)) ∨
    ∃ components names, LeadsFrom root file components ∧ .up ∉ components ∧
      Location.IsProper names ∧ components.filter (· ≠ .here) = names.map .name ∧
      copyPath root file = .ok (Path.ofComponents (names.map .name)) := by
  -- A file outside the root directory, one whose path leads up, and all others.
  cases hrelative : relativeComponents? root file with
  | none =>
      obtain ⟨habsolute, houtside⟩ := relativeComponents?_eq_none_iff.mp hrelative
      exact Or.inl ⟨copyPath_of_outside habsolute houtside, Or.inl ⟨habsolute, houtside⟩⟩
  | some components =>
      have hleads := relativeComponents?_eq_some_iff.mp hrelative
      by_cases hup : Component.up ∈ components
      · exact Or.inl ⟨copyPath_of_up hleads hup, Or.inr ⟨components, hleads, hup⟩⟩
      · obtain ⟨names, hproper, hnames⟩ :=
          exists_names (fun component => hleads.mem_cases hroot hcut) hup
        exact Or.inr ⟨components, names, hleads, hup, hproper, hnames,
          copyPath_of_names hleads hnames⟩

/-! ## The target of a copy -/

theorem isInside_join {directory : Path} {names : Location} (hdirectory : directory.isAbsolute)
    (hproper : names.IsProper) :
    (directory.join (Path.ofComponents (names.map .name))).IsInside directory names := by
  have hsteps := isStep_of_mem_names hproper
  have hrelative := Path.isAbsolute_ofComponents hsteps
  have hpieces : (names.map Component.name).map Component.piece = names := by
    rw [List.map_map]
    exact List.map_id names
  refine ⟨hproper, ?_, ?_⟩
  · rw [Path.components_join hdirectory hrelative (Path.pieces_ofComponents_ne_nil _),
      Path.filterMap_pieces_ofComponents hsteps]
  · rw [Path.place_join hdirectory hrelative, Path.steps_ofComponents hsteps, hpieces,
      Location.foldl_step_names hproper]

/-- The copy of a file is at the names of its path inside the directory for copies. -/
theorem isInside_persistTarget (hroot : root.IsCanonical) {target : Path} (hcut : file.IsCut)
    (htarget : persistTarget root file (.copy (Path.ofText dir)) = .ok target) :
    ∃ names : Location, target.IsInside (root.join (Path.ofText dir)) names ∧
      copyPath root file = .ok (Path.ofComponents (names.map .name)) := by
  obtain ⟨inside, hinside, htarget⟩ := FirstError.bind_eq_ok_iff.mp htarget
  rcases copyPath_cases hroot hcut with ⟨herror, -⟩ | ⟨-, names, -, -, hproper, -, hcopy⟩
  · exact absurd (herror.symm.trans hinside) (by simp)
  · rw [hcopy, Except.ok.injEq] at hinside
    rw [← Except.ok.inj htarget, ← hinside]
    exact ⟨names, isInside_join (hroot.isDescent.isAbsolute_join dir) hproper, hcopy⟩

/-! ## The copies of groups -/

/-- The name of a file is the path of its copy. -/
theorem text_of_copyPath_resolveFileName (hroot : root.IsCanonical) {name : String} {inside : Path}
    (hcopy : copyPath root (Path.ofText (resolveFileName tree root name)) = .ok inside) :
    inside.text = resolveFileName tree root name := by
  obtain ⟨ups, place, hplace, hresolved⟩ := exists_resolvedPath_eq_rising tree hroot name
  unfold resolveFileName at hcopy ⊢
  rw [hresolved] at hcopy ⊢
  rcases hroot.isDescent.nameFrom_cases hplace ups with
    ⟨rest, hsteps, -, hname⟩ | ⟨houtside, hname⟩
  · rw [← Path.text_ofText (nameFrom root (Path.rising ups place)), hname]
    rw [hname] at hcopy
    have hleads : LeadsFrom root (Path.ofComponents rest) rest := by
      unfold LeadsFrom
      rw [Path.isAbsolute_ofComponents hsteps, if_neg Bool.false_ne_true,
        Path.components_ofComponents hsteps, List.nil_append]
    by_cases hup : Component.up ∈ rest
    · rw [copyPath_of_up hleads hup] at hcopy
      exact absurd hcopy (by simp)
    · -- There is no dot among the steps that could be left out.
      obtain ⟨names, -, hnames⟩ := exists_names (fun c hc => Or.inr (hsteps c hc)) hup
      have hkeep : rest.filter (· ≠ .here) = rest := by
        refine List.filter_eq_self.mpr fun component hcomponent => ?_
        rcases hsteps component hcomponent with rfl | ⟨name, rfl, -⟩
        · rfl
        · rfl
      rw [copyPath_of_names hleads hnames, Except.ok.injEq] at hcopy
      rw [← hcopy, ← hnames, hkeep]
  · -- A file outside the root directory has no copy.
    rw [hname, copyPath_of_outside (Path.isAbsolute_rising ups place) houtside] at hcopy
    exact absurd hcopy (by simp)

/-- Two names of files that have one copy are equal.  It is enough that the texts of both targets
lead to one place. -/
theorem resolveFileName_eq_of_target (hroot : root.IsCanonical) {name name' : String}
    {target target' : Path}
    (htarget : persistTarget root (Path.ofText (resolveFileName tree root name))
      (.copy (Path.ofText dir)) = .ok target)
    (htarget' : persistTarget root (Path.ofText (resolveFileName tree root name'))
      (.copy (Path.ofText dir)) = .ok target')
    (hsame : target.components = target'.components ∨ target.place = target'.place) :
    resolveFileName tree root name = resolveFileName tree root name' := by
  obtain ⟨names, ⟨-, hcomponents, hplace⟩, hcopy⟩ :=
    isInside_persistTarget hroot (Path.isCut_ofText _) htarget
  obtain ⟨names', ⟨-, hcomponents', hplace'⟩, hcopy'⟩ :=
    isInside_persistTarget hroot (Path.isCut_ofText _) htarget'
  -- Behind the directory for copies, which is common to both, the targets are their names.
  have hnames : names = names' := by
    rcases hsame with hsame | hsame
    · rw [hcomponents, hcomponents', List.append_cancel_left_eq] at hsame
      exact List.map_injective_iff.mpr (fun a b hab => Component.name.inj hab) hsame
    · rw [hplace, hplace', List.append_cancel_left_eq] at hsame
      exact hsame
  rw [← text_of_copyPath_resolveFileName hroot hcopy,
    ← text_of_copyPath_resolveFileName hroot hcopy', hnames]

/-- Three spellings of two files. -/
def threeSpellings : List Failure := [.clamped "src/../a.ts" "semi" 0 0 "",
  .clamped "/p//src/./a.ts" "semi" 0 0 "", .clamped "./a.ts" "semi" 0 0 ""]

end LintRepair
