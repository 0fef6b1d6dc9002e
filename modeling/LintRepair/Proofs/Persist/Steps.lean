import Mathlib.Data.List.Basic
import Mathlib.Tactic.Common
import LintRepair.Persist
import LintRepair.Proofs.Tree.Grow
import LintRepair.Proofs.Tree.Replace

/-!
# The steps of persisting a repair

A repair that changes nothing is not written (`persist_unmodified`).  Any other one needs a target,
the directories for it and a place in the tree, and `persist_of_modified` says what is left behind
where it stops.  In a tree without links the place is known before anything is written there, so the
temporary file does not occur.  Nothing but the last step changes what was in the tree:
`addsDirectories_prepareTarget`.
-/

namespace LintRepair

variable {tree : Tree} {repair : Repair} {source : String} {root target : Path} {output : Output}
  {error : PersistError}

theorem Repair.isModified_eq_false_iff :
    repair.isModified source = false ↔ repair.content = source := by
  unfold Repair.isModified
  rw [bne_eq_false_iff_eq]

theorem persist_unmodified (output : Output) (hmodified : repair.isModified source = false) :
    persist tree repair source root output = ⟨tree, .ok .unchanged⟩ := by
  unfold persist
  rw [hmodified, Bool.not_false, if_pos rfl]

/-- The directories above the target are all that is new before it is written. -/
theorem addsDirectories_prepareTarget (hfree : tree.LinkFree) (target : Path) (output : Output) :
    tree.AddsDirectories (· ∈ target.ancestors) (prepareTarget tree target output).1 := by
  unfold prepareTarget
  cases output with
  | direct => exact Tree.AddsDirectories.refl tree
  | copy dir =>
      dsimp only
      split
      · next parent hparent =>
        exact Tree.addsDirectories_makeDirectories hfree
          (Path.mem_ancestors_of_parent target.self_mem_ancestors hparent)
      · exact Tree.AddsDirectories.refl tree

/-- Where a repair that changes something gets to. -/
theorem persist_of_modified (hfree : tree.LinkFree) (root : Path) (output : Output)
    (hmodified : repair.isModified source) :
    persist tree repair source root output =
      match persistTarget root (Path.ofText repair.file) output with
      | .error error => ⟨tree, .error error⟩
      | .ok target =>
          let prepared := (prepareTarget tree target output).1
          match (prepareTarget tree target output).2 with
          | .error error => ⟨prepared, .error error⟩
          | .ok () =>
              match prepared.replacedPlace target with
              | .error error => ⟨prepared, .error (.io target error)⟩
              | .ok place =>
                  let mode := (prepared.mode? (root.join (Path.ofText repair.file))).getD
                    Tree.newFileMode
                  ⟨prepared.set place (.file (.text repair.content) mode),
                    .ok (.written target)⟩ := by
  unfold persist
  rw [hmodified, Bool.not_true, if_neg Bool.false_ne_true]
  dsimp only
  cases persistTarget root (Path.ofText repair.file) output with
  | error error => rfl
  | ok target =>
  -- Without links the temporary file is gone again whether or not it could be moved.
  have hprepared := (addsDirectories_prepareTarget hfree target output).linkFree hfree
  dsimp only
  generalize prepareTarget tree target output = step at hprepared
  obtain ⟨prepared, result⟩ := step
  cases result with
  | error error => rfl
  | ok value =>
  dsimp only at hprepared ⊢
  rw [Tree.replaceFile_eq hprepared]
  cases prepared.replacedPlace target with
  | error error => rfl
  | ok place => rfl

theorem exists_io_of_prepareTarget
    (hprepared : (prepareTarget tree target output).2 = .error error) :
    ∃ path cause, error = .io path cause := by
  unfold prepareTarget at hprepared
  cases output with
  | direct => exact absurd hprepared (by simp)
  | copy dir =>
      dsimp only at hprepared
      split at hprepared
      · next parent _ =>
        obtain ⟨cause, -, herror⟩ := FirstError.mapError_eq_error_iff.mp hprepared
        exact ⟨parent, cause, herror.symm⟩
      · exact absurd hprepared (by simp)

/-- The ways in which persisting a repair ends, with what is left in each. -/
theorem persist_cases (hfree : tree.LinkFree) (repair : Repair) (source : String) (root : Path)
    (output : Output) :
    (repair.content = source ∧
      persist tree repair source root output = ⟨tree, .ok .unchanged⟩) ∨
    (∃ error, persist tree repair source root output = ⟨tree, .error error⟩) ∨
    ∃ target, persistTarget root (Path.ofText repair.file) output = .ok target ∧
      let prepared := (prepareTarget tree target output).1
      ((∃ path cause, persist tree repair source root output =
        ⟨prepared, .error (.io path cause)⟩) ∨
      ∃ place mode, prepared.replacedPlace target = .ok place ∧
        mode = (prepared.mode? (root.join (Path.ofText repair.file))).getD Tree.newFileMode ∧
        persist tree repair source root output =
          ⟨prepared.set place (.file (.text repair.content) mode), .ok (.written target)⟩) := by
  cases hmodified : repair.isModified source with
  | false =>
      exact Or.inl ⟨Repair.isModified_eq_false_iff.mp hmodified,
        persist_unmodified output hmodified⟩
  | true =>
  right
  rw [persist_of_modified hfree root output hmodified]
  cases htarget : persistTarget root (Path.ofText repair.file) output with
  | error error => exact Or.inl ⟨error, rfl⟩
  | ok target =>
  refine Or.inr ⟨target, rfl, ?_⟩
  dsimp only
  cases hresult : (prepareTarget tree target output).2 with
  | error error =>
      obtain ⟨path, cause, rfl⟩ := exists_io_of_prepareTarget hresult
      exact Or.inl ⟨path, cause, rfl⟩
  | ok value =>
  cases hreplaced : (prepareTarget tree target output).1.replacedPlace target with
  | error error => exact Or.inl ⟨target, error, rfl⟩
  | ok place => exact Or.inr ⟨place, _, rfl, rfl, rfl⟩

theorem result_persist_ne_unchanged (tree : Tree) (root : Path) (output : Output)
    (hmodified : repair.isModified source) :
    (persist tree repair source root output).result ≠ .ok .unchanged := by
  unfold persist
  rw [hmodified, Bool.not_true, if_neg Bool.false_ne_true]
  dsimp only
  split
  · simp
  split
  · simp
  split
  · simp
  · simp

/-- What is written has been put where the target says. -/
theorem persistTarget_of_written
    (hwritten : (persist tree repair source root output).result = .ok (.written target)) :
    persistTarget root (Path.ofText repair.file) output = .ok target := by
  unfold persist at hwritten
  split at hwritten
  · exact absurd hwritten (by simp)
  dsimp only at hwritten
  split at hwritten
  · exact absurd hwritten (by simp)
  next found hfound =>
  split at hwritten
  · exact absurd hwritten (by simp)
  split at hwritten
  · rw [Except.ok.injEq, Persisted.written.injEq] at hwritten
    rw [hfound, hwritten]
  · exact absurd hwritten (by simp)

end LintRepair
