import Mathlib.Data.List.Basic
import Mathlib.Tactic.Common
import LintRepair.Proofs.Persist.Steps

/-!
# A repair is written as a whole or not at all

What persisting a repair leaves behind, however it ends, in a tree without links:

* a repair that changes nothing leaves the tree (`result_persist_eq_unchanged_iff`);
* a repair that is written is found at its target, and off that place nothing is new but directories
  above it (`tree_persist_of_written`);
* a repair that fails leaves every file and adds none (`tree_persist_of_error`).

Only the last step touches a file.  All that comes before it adds directories
(`addsDirectories_prepareTarget`), so it is enough to look at the place where the new file is put.
-/

namespace LintRepair

variable {tree : Tree} {repair : Repair} {source : String} {root target : Path} {output : Output}
  {error : PersistError}

theorem result_persist_eq_unchanged_iff :
    (persist tree repair source root output).result = .ok .unchanged ↔ repair.content = source := by
  rw [← Repair.isModified_eq_false_iff]
  constructor
  · intro hresult
    by_contra hmodified
    rw [Bool.not_eq_false] at hmodified
    exact result_persist_ne_unchanged tree root output hmodified hresult
  · intro hmodified
    rw [persist_unmodified output hmodified]

/-- A repair that is written is found at its target with the permission bits of its source. -/
theorem tree_persist_of_written (hfree : tree.LinkFree)
    (hwritten : (persist tree repair source root output).result = .ok (.written target)) :
    let after := (persist tree repair source root output).tree
    after.readText target = .ok repair.content ∧
    (∀ mode, tree.mode? (root.join (Path.ofText repair.file)) = some mode →
      after.mode? target = some mode) ∧
    ∃ place, after.locate target = .ok place ∧ tree.entry? place ≠ some .directory ∧
      ∀ other, other ≠ place → after.entry? other = tree.entry? other ∨
        tree.entry? other = none ∧ after.entry? other = some .directory ∧
          ∃ above ∈ target.ancestors, after.locate above = .ok other := by
  rcases persist_cases hfree repair source root output with
    ⟨-, hpersist⟩ | ⟨error, hpersist⟩ | ⟨found, -, hends⟩
  · rw [hpersist] at hwritten
    exact absurd hwritten (by simp)
  · rw [hpersist] at hwritten
    exact absurd hwritten (by simp)
  rcases hends with ⟨path, cause, hpersist⟩ | ⟨place, mode, hreplaced, hmode, hpersist⟩
  · rw [hpersist] at hwritten
    exact absurd hwritten (by simp)
  rw [hpersist] at hwritten ⊢
  obtain rfl : found = target := Persisted.written.inj (Except.ok.inj hwritten)
  have hadds := addsDirectories_prepareTarget hfree found output
  generalize (prepareTarget tree found output).1 = prepared at hadds hreplaced hmode ⊢
  have hfreePrepared := hadds.linkFree hfree
  obtain ⟨hne, hfile⟩ := Tree.ne_directory_of_replacedPlace hreplaced
  have hfreeAfter : (prepared.set place (.file (.text repair.content) mode)).LinkFree :=
    Tree.linkFree_set hfreePrepared (by simp) hne
  have hgrows := Tree.grows_set_of_replacedPlace hreplaced (.file (.text repair.content) mode)
  have hlocate := Tree.locate_set_of_replacedPlace hfreePrepared hreplaced hfreeAfter
  have hentry : Tree.entry? (prepared.set place (.file (.text repair.content) mode)) place =
      some (.file (.text repair.content) mode) := Tree.entry_set_self hne
  refine ⟨Tree.readText_eq_ok_iff.mpr ⟨place, mode, hlocate, hentry⟩, ?_, place, hlocate, ?_, ?_⟩
  · intro kept hkept
    rw [Tree.mode_of_locate hlocate hentry, hmode, hadds.mode_eq hfree hkept, Option.getD_some]
  · exact fun hdirectory => hfile (hadds.grows.directory place hdirectory)
  · intro other hother
    rw [Tree.entry_set_of_ne hother]
    -- A new directory is still found once the file is there.
    refine (hadds.entry other).imp_right ?_
    rintro ⟨hnone, hdirectory, above, habove, hfound⟩
    exact ⟨hnone, hdirectory, above, habove, hgrows.locate_eq hfreePrepared hfreeAfter hfound⟩

/-- A repair that fails leaves every file as it was, and no file is new. -/
theorem tree_persist_of_error (hfree : tree.LinkFree)
    (herror : (persist tree repair source root output).result = .error error) :
    let after := (persist tree repair source root output).tree
    (∀ place, after.entry? place = tree.entry? place ∨
      tree.entry? place = none ∧ after.entry? place = some .directory) ∧
    ∀ file, error = .escapes file → after = tree := by
  rcases persist_cases hfree repair source root output with
    ⟨-, hpersist⟩ | ⟨cause, hpersist⟩ | ⟨target, -, hends⟩
  · rw [hpersist] at herror
    exact absurd herror (by simp)
  · rw [hpersist]
    exact ⟨fun place => Or.inl rfl, fun file _ => rfl⟩
  rcases hends with ⟨path, cause, hpersist⟩ | ⟨place, mode, -, -, hpersist⟩
  · rw [hpersist] at herror ⊢
    obtain rfl : PersistError.io path cause = error := Except.error.inj herror
    refine ⟨fun place => ?_, fun file hescapes => absurd hescapes (by simp)⟩
    have hadds := addsDirectories_prepareTarget hfree target output
    exact (hadds.entry place).imp_right fun hnew => ⟨hnew.1, hnew.2.1⟩
  · rw [hpersist] at herror
    exact absurd herror (by simp)

/-- However persisting ends, directories keep their permission bits. -/
theorem directoryMode_persist (hfree : tree.LinkFree) (repair : Repair) (source : String)
    (root : Path) (output : Output) (place : Location) :
    (persist tree repair source root output).tree.directoryMode place =
      tree.directoryMode place := by
  rcases persist_cases hfree repair source root output with
    ⟨-, hpersist⟩ | ⟨error, hpersist⟩ | ⟨target, -, hends⟩
  · rw [hpersist]
  · rw [hpersist]
  have hadds := addsDirectories_prepareTarget hfree target output
  rcases hends with ⟨path, cause, hpersist⟩ | ⟨_, mode, -, -, hpersist⟩
  · rw [hpersist]
    exact hadds.directoryMode_eq place
  · rw [hpersist]
    exact hadds.directoryMode_eq place

/-- Persisting a repair, in a tree without links.  The repair is unchanged exactly if its content is
that of the source, and then nothing has changed.  A repair that is written is what its target
holds, with the permission bits of its source if there was one; every other file stays, none is new,
and all other new entries are directories above the target.  A repair that fails leaves every file
and adds none, and one whose copy would lie outside of the directory for copies adds no directory
either.  Directories keep their permission bits in all cases. -/
theorem persist_all_or_nothing (tree : Tree) (repair : Repair) (source : String) (root : Path)
    (output : Output) (hfree : tree.LinkFree) :
    let outcome := persist tree repair source root output
    let after := outcome.tree
    (outcome.result = .ok .unchanged ↔ repair.content = source) ∧
    (outcome.result = .ok .unchanged → after = tree) ∧
    (∀ target, outcome.result = .ok (.written target) →
      after.readText target = .ok repair.content ∧
      (∀ mode, tree.mode? (root.join (Path.ofText repair.file)) = some mode →
        after.mode? target = some mode) ∧
      ∃ place, after.locate target = .ok place ∧ tree.entry? place ≠ some .directory ∧
        ∀ other, other ≠ place → after.entry? other = tree.entry? other ∨
          tree.entry? other = none ∧ after.entry? other = some .directory ∧
            ∃ above ∈ target.ancestors, after.locate above = .ok other) ∧
    (∀ error, outcome.result = .error error →
      (∀ place, after.entry? place = tree.entry? place ∨
        tree.entry? place = none ∧ after.entry? place = some .directory) ∧
      ∀ file, error = .escapes file → after = tree) ∧
    ∀ place, after.directoryMode place = tree.directoryMode place := by
  refine ⟨result_persist_eq_unchanged_iff, ?_, ?_, ?_, ?_⟩
  · intro hunchanged
    have hmodified := Repair.isModified_eq_false_iff.mpr
      (result_persist_eq_unchanged_iff.mp hunchanged)
    rw [persist_unmodified output hmodified]
  · exact fun target hwritten => tree_persist_of_written hfree hwritten
  · exact fun error herror => tree_persist_of_error hfree herror
  · exact directoryMode_persist hfree repair source root output

/-- A directory with one source. -/
def oneSource : Tree where
  entries := [(["p"], .directory), (["p", "a.ts"], .file (.text "let x = 1") 0o640)]

/-- A copy of the source goes two directories down.  A copy of the directory itself cannot be
written, and one of the two directories is all that is left of it. -/
theorem persist_all_or_nothing_one_source :
    let copied := persist oneSource ⟨"a.ts", "const x = 1", "", [], []⟩ "let x = 1"
      (Location.path ["p"]) (.copy (Path.ofText "fixes/new"))
    let failed := persist oneSource ⟨".", "const x = 1", "", [], []⟩ "let x = 1"
      (Location.path ["p"]) (.copy (Path.ofText "fixes/new"))
    copied.tree.readText (Path.ofText "/p/fixes/new/a.ts") = .ok "const x = 1" ∧
    copied.tree.mode? (Path.ofText "/p/fixes/new/a.ts") = some 0o640 ∧
    (∀ place, failed.tree.entry? place = oneSource.entry? place ∨
      oneSource.entry? place = none ∧ failed.tree.entry? place = some .directory) ∧
    failed.tree.entry? ["p", "fixes"] = some .directory := by
  have hfree : oneSource.LinkFree := Tree.linkFree_of_entries (by decide)
  obtain ⟨-, -, hwritten, -⟩ := persist_all_or_nothing oneSource ⟨"a.ts", "const x = 1", "", [], []⟩
    "let x = 1" (Location.path ["p"]) (.copy (Path.ofText "fixes/new")) hfree
  obtain ⟨-, -, -, hfailed, -⟩ := persist_all_or_nothing oneSource ⟨".", "const x = 1", "", [], []⟩
    "let x = 1" (Location.path ["p"]) (.copy (Path.ofText "fixes/new")) hfree
  obtain ⟨hread, hmode, -⟩ := hwritten (Path.ofText "/p/fixes/new/a.ts") (by decide +kernel)
  refine ⟨hread, hmode 0o640 (by decide), ?_, by decide +kernel⟩
  exact (hfailed (.io (Path.ofText "/p/fixes/new/") .notDirectory) (by decide +kernel)).1

end LintRepair
