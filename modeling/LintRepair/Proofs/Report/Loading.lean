import Mathlib.Data.List.Forall2
import Mathlib.Tactic.Common
import LintRepair.Proofs.FirstError
import LintRepair.Proofs.Path.FileName
import LintRepair.Proofs.Text.Ascending
import LintRepair.Proofs.Tree.Listing
import LintRepair.Report.Load

/-!
# Which reports are loaded

Fixes are selected first come, first served, so the order of the failures decides what becomes of a
source, and the order in which a directory happens to list its reports must not.

* The names of the reports inside a directory are in ascending order, with each there once
  (`isAscending_reportNames`, `mem_reportNames_iff`).  There is only one such list, so a rearranged
  tree gives the same (`reportNames_eq`), and everything else that loading looks at is what there is
  at a place.
* A path stands for places that are read one after another (`StandsFor`).  Loading reads the places
  of all paths in their order and stops at the first that cannot be read (`loadAll_eq`), although
  the paths behind it have not been looked at by then: a directory without reports is a place that
  cannot be read, and so it comes in its turn.
-/

namespace LintRepair.Report

open Text (IsAscending)

variable {tree other : Tree} {input : Input} {path : Path} {directory : Location} {name : String}
  {files paths : List Path}

/-! ## The reports inside a directory -/

/-- Whether a directory has a report of this name directly inside it: a file, and no link, with a
name before `.json`. -/
def HasReport (tree : Tree) (directory : Location) (name : String) : Prop :=
  (∃ stem, stem ≠ "" ∧ name = stem ++ "." ++ "json") ∧
    ∃ content mode, tree.entry? (directory ++ [name]) = some (.file content mode)

theorem isReport_iff {entry : Entry} : isReport name entry = true ↔
    (∃ stem, stem ≠ "" ∧ name = stem ++ "." ++ "json") ∧
      ∃ content mode, entry = .file content mode := by
  cases entry with
  | file content mode =>
      rw [← Path.extension_singleton_iff (by decide) (by decide)]
      simp [isReport]
  | directory => simp [isReport]
  | link target => simp [isReport]

theorem mem_reportNames_iff (honce : tree.ListsOnce) :
    name ∈ reportNames tree directory ↔ HasReport tree directory name := by
  unfold reportNames HasReport
  rw [List.mem_mergeSort, List.mem_map]
  constructor
  · intro h
    obtain ⟨⟨_, entry⟩, hmem, rfl⟩ := h
    obtain ⟨hchild, hreport⟩ := List.mem_filter.mp hmem
    obtain ⟨hname, content, mode, rfl⟩ := isReport_iff.mp hreport
    exact ⟨hname, content, mode, (Tree.mem_children_iff honce).mp hchild⟩
  · intro h
    obtain ⟨hname, content, mode, hentry⟩ := h
    have hchild : (name, Entry.file content mode) ∈ tree.children directory :=
      (Tree.mem_children_iff honce).mpr hentry
    exact ⟨_, List.mem_filter.mpr ⟨hchild, isReport_iff.mpr ⟨hname, content, mode, rfl⟩⟩, rfl⟩

theorem isAscending_reportNames (honce : tree.ListsOnce) :
    IsAscending (reportNames tree directory) := by
  refine Text.isAscending_mergeSort ?_
  exact ((List.filter_sublist).map Prod.fst).nodup (Tree.nodup_children honce)

/-- The names of the reports are the same however they are listed. -/
theorem reportNames_eq (h : tree.Rearranges other) (honce : tree.ListsOnce) :
    reportNames other directory = reportNames tree directory := by
  have honce' := h.listsOnce honce
  refine (isAscending_reportNames honce').eq_of_mem_iff (isAscending_reportNames honce) ?_
  intro name
  rw [mem_reportNames_iff honce', mem_reportNames_iff honce]
  unfold HasReport
  rw [h.entry_eq honce]

/-! ## Two orders -/

theorem discover_eq (h : tree.Rearranges other) (honce : tree.ListsOnce) :
    discover other path = discover tree path := by
  unfold discover
  simp only [h.locate_eq honce, h.entry_eq honce, reportNames_eq h honce]

theorem loadFiles_congr (h : tree.Rearranges other) (honce : tree.ListsOnce) :
    loadFiles other input files = loadFiles tree input files := by
  induction files generalizing input with
  | nil => rfl
  | cons path rest ih =>
      simp only [loadFiles, loadOne, ih, h.readText_eq honce]

theorem loadAll_congr (h : tree.Rearranges other) (honce : tree.ListsOnce) :
    loadAll other input paths = loadAll tree input paths := by
  induction paths generalizing input with
  | nil => rfl
  | cons path rest ih =>
      simp only [loadAll, ih, discover_eq h honce, loadFiles_congr h honce]

/-! ## Places -/

/-- What loading comes to: a report, or a directory that should have had one. -/
inductive Place where
  | report (path : Path)
  | noReports (path : Path)
deriving DecidableEq

/-- The failures of a place that is not standard input. -/
def Place.read (tree : Tree) : Place → Except LoadError (List Failure)
  | .report path => do
      let text ← (tree.readText path).mapError (.unreadable path)
      (parse text).mapError (.malformed path)
  | .noReports path => .error (.empty path)

/-- The places that a path stands for, in their order. -/
inductive StandsFor (tree : Tree) (path : Path) : List Place → Prop where
  /-- Anything else than a directory stands for itself. -/
  | file (hfile : tree.isDirectory path = false) : StandsFor tree path [.report path]
  /-- A directory stands for the reports in it. -/
  | reports {directory : Location} {names : List String}
      (hlocate : tree.locate path = .ok directory)
      (hdirectory : tree.entry? directory = some .directory) (hascending : IsAscending names)
      (hnames : ∀ name, name ∈ names ↔ HasReport tree directory name) (hne : names ≠ []) :
      StandsFor tree path (names.map fun name => .report (path.join ⟨[name]⟩))
  /-- It must have one. -/
  | noReports {directory : Location} (hlocate : tree.locate path = .ok directory)
      (hdirectory : tree.entry? directory = some .directory)
      (hnone : ∀ name, ¬ HasReport tree directory name) : StandsFor tree path [.noReports path]

/-- The places of a path as they are found. -/
def placesOf (tree : Tree) (path : Path) : List Place :=
  match discover tree path with
  | .ok files => files.map .report
  | .error _ => [.noReports path]

theorem isDirectory_eq_true_iff : tree.isDirectory path = true ↔
    ∃ directory, tree.locate path = .ok directory ∧ tree.entry? directory = some .directory := by
  unfold Tree.isDirectory Tree.follow?
  cases tree.locate path <;> simp

theorem discover_of_file (hfile : tree.isDirectory path = false) :
    discover tree path = .ok [path] := by
  unfold discover
  cases hlocate : tree.locate path with
  | error error => rfl
  | ok directory =>
      have hother : tree.entry? directory ≠ some .directory := by
        intro hdirectory
        rw [isDirectory_eq_true_iff.mpr ⟨directory, hlocate, hdirectory⟩] at hfile
        cases hfile
      exact if_neg hother

theorem discover_of_directory (hlocate : tree.locate path = .ok directory)
    (hdirectory : tree.entry? directory = some .directory) :
    discover tree path = if reportNames tree directory = [] then .error (.empty path)
      else .ok ((reportNames tree directory).map fun name => path.join ⟨[name]⟩) := by
  unfold discover
  rw [hlocate]
  simp only [if_pos hdirectory, List.isEmpty_iff]

/-- What is found: a path itself, or the reports of a directory, if it has any. -/
theorem discover_cases (tree : Tree) (path : Path) :
    (tree.isDirectory path = false ∧ discover tree path = .ok [path]) ∨
    ∃ directory, tree.locate path = .ok directory ∧ tree.entry? directory = some .directory ∧
      discover tree path = if reportNames tree directory = [] then .error (.empty path)
        else .ok ((reportNames tree directory).map fun name => path.join ⟨[name]⟩) := by
  cases hkind : tree.isDirectory path with
  | false => exact Or.inl ⟨rfl, discover_of_file hkind⟩
  | true =>
      obtain ⟨directory, hlocate, hdirectory⟩ := isDirectory_eq_true_iff.mp hkind
      exact Or.inr ⟨directory, hlocate, hdirectory, discover_of_directory hlocate hdirectory⟩

theorem standsFor_placesOf (honce : tree.ListsOnce) (path : Path) :
    StandsFor tree path (placesOf tree path) := by
  obtain ⟨hfile, hdiscover⟩ | ⟨directory, hlocate, hdirectory, hdiscover⟩ :=
    discover_cases tree path
  · rw [placesOf, hdiscover]
    exact .file hfile
  · by_cases hnames : reportNames tree directory = []
    · rw [placesOf, hdiscover, if_pos hnames]
      refine .noReports hlocate hdirectory fun name hname => ?_
      rw [← mem_reportNames_iff honce, hnames] at hname
      exact List.not_mem_nil hname
    · rw [placesOf, hdiscover, if_neg hnames]
      dsimp only
      rw [List.map_map]
      exact .reports hlocate hdirectory (isAscending_reportNames honce)
        (fun _ => mem_reportNames_iff honce) hnames

theorem StandsFor.eq_placesOf (honce : tree.ListsOnce) {places : List Place}
    (h : StandsFor tree path places) : places = placesOf tree path := by
  cases h with
  | file hfile =>
      rw [placesOf, discover_of_file hfile]
      rfl
  | reports hlocate hdirectory hascending hnames hne =>
      rw [hascending.eq_of_mem_iff (isAscending_reportNames honce) fun name => by
        rw [hnames, mem_reportNames_iff honce]] at hne ⊢
      rw [placesOf, discover_of_directory hlocate hdirectory, if_neg hne]
      dsimp only
      rw [List.map_map]
      rfl
  | noReports hlocate hdirectory hnone =>
      have hempty := List.eq_nil_iff_forall_not_mem.mpr fun name hname =>
        hnone name ((mem_reportNames_iff honce).mp hname)
      rw [placesOf, discover_of_directory hlocate hdirectory, if_pos hempty]

/-- Paths stand for one list of places each. -/
theorem forall₂_standsFor_iff (honce : tree.ListsOnce) {places : List (List Place)} :
    List.Forall₂ (StandsFor tree) paths places ↔ places = paths.map (placesOf tree) := by
  have hsame : StandsFor tree = fun path found => placesOf tree path = found := by
    funext path found
    refine propext ⟨fun h => (h.eq_placesOf honce).symm, ?_⟩
    rintro rfl
    exact standsFor_placesOf honce path
  rw [hsame, ← List.forall₂_map_left_iff, List.forall₂_eq_eq_eq, eq_comm]

/-! ## Reading places in turn -/

/-- No report inside a directory is taken for standard input. -/
theorem not_sameAs_join (hname : HasReport tree directory name) :
    ¬ (path.join ⟨[name]⟩).SameAs standardInput := by
  intro hsame
  obtain ⟨⟨stem, hstem, rfl⟩, -⟩ := hname
  have hjson : "json" ≠ "" := by decide
  have hfile := Path.fileName_join path (Path.componentOf_extended hstem hjson)
  have hhyphen : standardInput.fileName? = some "-" := by decide
  have hboth : (path.join ⟨[stem ++ "." ++ "json"]⟩).fileName? = standardInput.fileName? := by
    unfold Path.fileName?
    rw [hsame]
  have hlength := congrArg String.length (Option.some.inj (hfile.symm.trans (hboth.trans hhyphen)))
  have hfour : "json".length = 4 := rfl
  have hone : "-".length = 1 := rfl
  rw [String.length_append, String.length_append] at hlength
  omega

theorem loadOne_eq (hpath : ¬ path.SameAs standardInput) :
    loadOne tree input path =
      ((Place.report path).read tree).map fun failures => (failures, input) := by
  unfold loadOne Place.read
  simp only [hpath, decide_false, Bool.false_eq_true, if_false]
  cases tree.readText path with
  | error error => rfl
  | ok text =>
      rw [FirstError.mapError_ok, FirstError.bind_ok, FirstError.bind_ok]
      cases parse text <;> rfl

theorem loadFiles_eq (hfiles : ∀ path ∈ files, ¬ path.SameAs standardInput) :
    loadFiles tree input files =
      ((files.map Place.report).mapM (Place.read tree)).map
        fun parts => (parts.flatten, input) := by
  induction files with
  | nil => rfl
  | cons path rest ih =>
      rw [List.forall_mem_cons] at hfiles
      rw [loadFiles, loadOne_eq hfiles.1, List.map_cons, List.mapM_cons]
      cases (Place.report path).read tree with
      | error error => rfl
      | ok failures =>
          simp only [Except.map, FirstError.bind_ok]
          rw [ih hfiles.2]
          cases (rest.map Place.report).mapM (Place.read tree) <;> rfl

theorem not_sameAs_of_discover (honce : tree.ListsOnce) (hpath : ¬ path.SameAs standardInput)
    (hdiscover : discover tree path = .ok files) : ∀ file ∈ files, ¬ file.SameAs standardInput := by
  obtain ⟨-, hself⟩ | ⟨directory, -, -, hinside⟩ := discover_cases tree path
  · obtain rfl := Except.ok.inj (hself.symm.trans hdiscover)
    exact List.forall_mem_singleton.mpr hpath
  · rw [hinside] at hdiscover
    split at hdiscover
    · cases hdiscover
    · obtain rfl := Except.ok.inj hdiscover
      refine List.forall_mem_map.mpr fun name hname => ?_
      exact not_sameAs_join ((mem_reportNames_iff honce).mp hname)

theorem error_of_discover {error : LoadError} (hdiscover : discover tree path = .error error) :
    error = .empty path := by
  obtain ⟨-, hself⟩ | ⟨directory, -, -, hinside⟩ := discover_cases tree path
  · cases hself.symm.trans hdiscover
  · rw [hinside] at hdiscover
    split at hdiscover
    · exact (Except.error.inj hdiscover).symm
    · cases hdiscover

/-- Loading reads the places of all paths in turn. -/
theorem loadAll_eq (honce : tree.ListsOnce) (hpaths : ∀ path ∈ paths, ¬ path.SameAs standardInput) :
    loadAll tree input paths =
      ((paths.flatMap (placesOf tree)).mapM (Place.read tree)).map
        fun parts => (parts.flatten, input) := by
  induction paths with
  | nil => rfl
  | cons path rest ih =>
      rw [List.forall_mem_cons] at hpaths
      rw [loadAll, List.flatMap_cons, List.mapM_append]
      cases hdiscover : discover tree path with
      | error error =>
          have hplaces : placesOf tree path = [.noReports path] := by rw [placesOf, hdiscover]
          rw [hplaces, error_of_discover hdiscover]
          rfl
      | ok files =>
          have hplaces : placesOf tree path = files.map .report := by rw [placesOf, hdiscover]
          -- No file that is found is the path of standard input, so the input is handed on.
          have hfiles := not_sameAs_of_discover honce hpaths.1 hdiscover
          rw [hplaces, FirstError.bind_ok, loadFiles_eq hfiles]
          cases (files.map Place.report).mapM (Place.read tree) with
          | error error => rfl
          | ok first =>
              simp only [Except.map, FirstError.bind_ok]
              rw [ih hpaths.2]
              cases (rest.flatMap (placesOf tree)).mapM (Place.read tree) with
              | error error => rfl
              | ok others => simp [Except.map, pure, Except.pure]

theorem load_eq (honce : tree.ListsOnce) (hpaths : ∀ path ∈ paths, ¬ path.SameAs standardInput) :
    load tree input paths =
      ((paths.map (placesOf tree)).flatten.mapM (Place.read tree)).map List.flatten := by
  unfold load
  rw [loadAll_eq honce hpaths, List.flatMap_def]
  cases (paths.map (placesOf tree)).flatten.mapM (Place.read tree) <;> rfl

/-- A report inside a directory is read from what the directory has under its name, unless its name
or its path is too long or no path at all. -/
theorem read_inside {value : String} {mode : Nat} (hlocate : tree.locate path = .ok directory)
    (hdirectory : tree.entry? directory = some .directory) (hname : HasReport tree directory name)
    (hlength : name.utf8ByteSize ≤ maxNameLength) (hcheck : (path.join ⟨[name]⟩).check = .ok ())
    (hentry : tree.entry? (directory ++ [name]) = some (.file (.text value) mode)) :
    (Place.report (path.join ⟨[name]⟩)).read tree =
      (parse value).mapError (.malformed (path.join ⟨[name]⟩)) := by
  obtain ⟨⟨stem, hstem, rfl⟩, -⟩ := hname
  have hlocated := Tree.locate_join hlocate hdirectory
    (Path.componentOf_extended hstem (by decide)) hlength hcheck hentry
  rw [Place.read, Tree.readText_eq_ok_iff.mpr ⟨_, mode, hlocated, hentry⟩]
  rfl

/-- In which order directories list what is in them makes no difference.  Without standard input,
the failures are those of the places that the paths stand for, place by place in their order, and
the error is that of the first place that cannot be read.  A report inside a directory is what the
directory has under its name. -/
theorem load_in_any_order (tree : Tree) (honce : tree.ListsOnce) (input : Input)
    (paths : List Path) :
    (∀ other, tree.Rearranges other → load other input paths = load tree input paths) ∧
    ((∀ path ∈ paths, ¬ path.SameAs standardInput) →
      (∃ places, List.Forall₂ (StandsFor tree) paths places) ∧
      ∀ places, List.Forall₂ (StandsFor tree) paths places →
        (∀ failures, load tree input paths = .ok failures ↔ ∃ parts,
          List.Forall₂ (fun place part => place.read tree = .ok part) places.flatten parts ∧
            failures = parts.flatten) ∧
        ∀ error, load tree input paths = .error error ↔ ∃ front place back,
          places.flatten = front ++ place :: back ∧
            (∀ other ∈ front, ∃ part, other.read tree = .ok part) ∧
            place.read tree = .error error) ∧
    ∀ path directory name value mode, tree.locate path = .ok directory →
      tree.entry? directory = some .directory → HasReport tree directory name →
      name.utf8ByteSize ≤ maxNameLength → (path.join ⟨[name]⟩).check = .ok () →
      tree.entry? (directory ++ [name]) = some (.file (.text value) mode) →
        (Place.report (path.join ⟨[name]⟩)).read tree =
          (parse value).mapError (.malformed (path.join ⟨[name]⟩)) := by
  refine ⟨?_, ?_, fun _ _ _ _ _ => read_inside⟩
  · intro other h
    unfold load
    rw [loadAll_congr h honce]
  · intro hpaths
    refine ⟨⟨_, (forall₂_standsFor_iff honce).mpr rfl⟩, ?_⟩
    intro places hplaces
    -- The places of a path are determined by it, so all are read in one go.
    obtain rfl := (forall₂_standsFor_iff honce).mp hplaces
    rw [load_eq honce hpaths]
    constructor
    · intro failures
      rw [FirstError.map_eq_ok_iff]
      exact exists_congr fun parts => and_congr FirstError.mapM_eq_ok_iff eq_comm
    · intro error
      rw [← FirstError.mapM_eq_error_iff]
      cases (paths.map (placesOf tree)).flatten.mapM (Place.read tree) <;> simp [Except.map]

/-- A directory with two reports, one of them no text, and a file that is no report. -/
def twoReports : Tree where
  entries := [(["r"], .directory), (["r", "a.json"], .file (.text "[]") 0o644),
    (["r", "b.json"], .file (.binary [0xff]) 0o644), (["r", "notes.md"], .file (.text "") 0o644)]

theorem load_in_any_order_two :
    let reversed : Tree := { twoReports with entries := twoReports.entries.reverse }
    let error : LoadError := .unreadable ⟨["", "r", "b.json"]⟩ .notText
    load twoReports (.ok "") [⟨["", "r"]⟩] = .error error ∧
      load reversed (.ok "") [⟨["", "r"]⟩] = .error error ∧
      (Place.report ⟨["", "r", "a.json"]⟩).read twoReports = .ok [] := by
  intro reversed error
  have honce : twoReports.ListsOnce := by decide
  have hlocate : twoReports.locate ⟨["", "r"]⟩ = .ok ["r"] := by decide
  obtain ⟨hother, hplaces, hinside⟩ := load_in_any_order twoReports honce (.ok "") [⟨["", "r"]⟩]
  have hnames : reportNames twoReports ["r"] = ["a.json", "b.json"] := by
    unfold reportNames
    dsimp only
    rw [List.mergeSort_of_pairwise (by decide)]
    decide
  have hascending : IsAscending ["a.json", "b.json"] := hnames ▸ isAscending_reportNames honce
  have hstands : StandsFor twoReports ⟨["", "r"]⟩
      [.report ⟨["", "r", "a.json"]⟩, .report ⟨["", "r", "b.json"]⟩] :=
    .reports hlocate (by decide) hascending (fun name => hnames ▸ mem_reportNames_iff honce)
      (by simp)
  have hfirst : (Place.report ⟨["", "r", "a.json"]⟩).read twoReports = .ok [] := by
    have hmem : "a.json" ∈ reportNames twoReports ["r"] := by rw [hnames]; decide
    have hread := hinside ⟨["", "r"]⟩ ["r"] "a.json" "[]" 0o644 hlocate (by decide)
      ((mem_reportNames_iff honce).mp hmem) (by decide) (by decide) (by decide)
    exact hread.trans (by decide)
  obtain ⟨-, herror⟩ := (hplaces (by decide)).2 _ (.cons hstands .nil)
  have hload : load twoReports (.ok "") [⟨["", "r"]⟩] = .error error :=
    (herror error).mpr ⟨[.report ⟨["", "r", "a.json"]⟩], .report ⟨["", "r", "b.json"]⟩, [], rfl,
      List.forall_mem_singleton.mpr ⟨[], hfirst⟩, by decide⟩
  exact ⟨hload, (hother reversed ⟨(List.reverse_perm _).symm, rfl⟩).trans hload, hfirst⟩

end LintRepair.Report
