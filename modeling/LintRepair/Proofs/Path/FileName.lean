import Mathlib.Data.List.TakeWhile
import Mathlib.Tactic.Common
import LintRepair.Proofs.Path.Relative

/-!
# The name at the end of a path

The last component of a path is its file name, whatever comes before it (`fileName_concat`), and the
extension is what stands behind the last point of the name, provided that something stands before it
(`extension_singleton_iff`).  A path with one more name behind it starts at the same place and has
one more step (`allSteps_join_name`).
-/

namespace LintRepair.Path

variable {path : Path} {name : String}

/-! ## File names -/

/-- A name at the end is the name of what a path leads to. -/
theorem fileName_concat (front : List String) (hname : componentOf? name = some (.name name)) :
    Path.fileName? ⟨front ++ [name]⟩ = some name := by
  obtain ⟨lead, hcomponents, -⟩ := exists_components_eq ⟨front ++ [name]⟩
  unfold fileName?
  rw [hcomponents, List.filterMap_append, List.filterMap_cons_some hname, List.filterMap_nil,
    ← List.append_assoc, List.getLast?_concat]

theorem fileName_join (path : Path) (hname : componentOf? name = some (.name name)) :
    (path.join ⟨[name]⟩).fileName? = some name := by
  unfold join
  split
  · exact fileName_concat [] hname
  · split
    · exact fileName_concat _ hname
    · exact fileName_concat _ hname

theorem fileName_singleton : Path.fileName? ⟨[name]⟩ =
    if componentOf? name = some (.name name) then some name else none := by
  split
  next hname => exact fileName_concat [] hname
  next hname =>
    rw [componentOf_eq_name_iff] at hname
    by_cases hempty : name = ""
    · rw [hempty]; rfl
    by_cases hhere : name = "."
    · rw [hhere]; rfl
    have hup : name = ".." := by tauto
    rw [hup]; rfl

/-! ## Extensions -/

/-- Characters are cut at the first point by what stands on either side of it. -/
theorem cut_at_point_iff {chars front back : List Char} :
    chars.takeWhile (· ≠ '.') = front ∧ chars.dropWhile (· ≠ '.') = '.' :: back ↔
      '.' ∉ front ∧ chars = front ++ '.' :: back := by
  constructor
  · intro h
    obtain ⟨rfl, hback⟩ := h
    refine ⟨fun hpoint => absurd (List.mem_takeWhile_imp hpoint) (by simp), ?_⟩
    rw [← hback, List.takeWhile_append_dropWhile]
  · intro h
    obtain ⟨hpoint, rfl⟩ := h
    have hfront : ∀ c ∈ front, (decide (c ≠ '.')) = true := by
      intro c hc
      rw [decide_eq_true_eq]
      exact fun heq => hpoint (heq ▸ hc)
    rw [List.takeWhile_append_of_pos hfront, List.dropWhile_append_of_pos hfront]
    simp

/-- A name with an extension is no dots. -/
theorem componentOf_extended {stem extension : String} (hstem : stem ≠ "") (hne : extension ≠ "") :
    componentOf? (stem ++ "." ++ extension) = some (.name (stem ++ "." ++ extension)) := by
  have hlength : 3 ≤ (stem ++ "." ++ extension).length := by
    have hfront : 0 < stem.length := Nat.pos_of_ne_zero (mt String.length_eq_zero_iff.mp hstem)
    have hback : 0 < extension.length := Nat.pos_of_ne_zero (mt String.length_eq_zero_iff.mp hne)
    have hdot : ".".length = 1 := rfl
    rw [String.length_append, String.length_append, hdot]
    omega
  refine componentOf_eq_name_iff.mpr ⟨?_, ?_, ?_⟩
  all_goals
    intro heq
    rw [heq] at hlength
    exact absurd hlength (by decide)

/-- The extension of a name stands behind its last point, if there is something before it. -/
theorem extension_singleton_iff {extension : String} (hpoint : '.' ∉ extension.toList)
    (hne : extension ≠ "") :
    (Path.mk [name]).extension? = some extension ↔
      ∃ stem, stem ≠ "" ∧ name = stem ++ "." ++ extension := by
  unfold extension?
  rw [fileName_singleton]
  constructor
  · intro h
    split at h
    · rw [Option.bind_eq_bind, Option.bind_some] at h
      dsimp only at h
      split at h
      · cases h
      next hbefore =>
      have hbehind := congrArg String.toList (Option.some.inj h)
      rw [String.toList_ofList] at hbehind
      cases hrest : name.toList.reverse.dropWhile (· ≠ '.') with
      | nil =>
          rw [hrest] at hbefore
          exact absurd rfl hbefore
      | cons point before =>
          -- From the end of the name the way stops at a point, so what is left begins with one.
          have hhead := List.head?_dropWhile_not (fun c => decide (c ≠ '.')) name.toList.reverse
          rw [hrest] at hbefore hhead
          obtain rfl : point = '.' := by simpa using hhead
          obtain ⟨-, hchars⟩ := cut_at_point_iff.mp ⟨rfl, hrest⟩
          refine ⟨String.ofList before.reverse, ?_, ?_⟩
          · simpa [← String.toList_inj] using hbefore
          · rw [← String.toList_inj, ← List.reverse_inj, hchars]
            simp [← hbehind]
    · cases h
  · intro h
    obtain ⟨stem, hstem, rfl⟩ := h
    have hchars : (stem ++ "." ++ extension).toList.reverse =
        extension.toList.reverse ++ '.' :: stem.toList.reverse := by simp
    -- Read from the end, the extension is what stands before the first point.
    obtain ⟨hbehind, hbefore⟩ := cut_at_point_iff.mpr ⟨by simpa using hpoint, hchars⟩
    rw [if_pos (componentOf_extended hstem hne), Option.bind_eq_bind, Option.bind_some]
    dsimp only
    rw [hbehind, hbefore]
    simp [hstem]

/-! ## One name behind a path -/

theorem isAbsolute_iff :
    path.isAbsolute = true ↔ path.pieces.head? = some "" ∧ path.pieces ≠ [""] := by
  unfold isAbsolute
  cases path.pieces with
  | nil => simp
  | cons first rest =>
      by_cases hfirst : first = ""
      · cases rest <;> simp [hfirst]
      · simp [hfirst]

theorem isAbsolute_singleton (name : String) : Path.isAbsolute ⟨[name]⟩ = false := by
  rw [Bool.eq_false_iff, Ne, isAbsolute_iff]
  simp

/-- A name behind a path takes the place of an empty piece at the end. -/
theorem exists_pieces_join (name : String) (hempty : path.isEmpty = false) :
    ∃ front, (path.join ⟨[name]⟩).pieces = front ++ [name] ∧ front ≠ [] ∧
      (path.pieces = front ∧ front ≠ [""] ∨ path.pieces = front ++ [""]) := by
  have hnil : path.pieces ≠ [] := by
    intro hpieces
    simp [isEmpty, hpieces] at hempty
  have hblank : path.pieces ≠ [""] := by
    intro hpieces
    simp [isEmpty, hpieces] at hempty
  -- The name comes behind the last piece, or takes its place if that is empty.
  obtain hjoin | ⟨front, hpieces, hjoin⟩ := pieces_join_cases hempty (isAbsolute_singleton name)
  · exact ⟨path.pieces, hjoin, hnil, .inl ⟨rfl, hblank⟩⟩
  · refine ⟨front, hjoin, ?_, .inr hpieces⟩
    rintro rfl
    exact hblank hpieces

theorem isAbsolute_join_name (name : String) (hempty : path.isEmpty = false) :
    (path.join ⟨[name]⟩).isAbsolute = path.isAbsolute := by
  obtain ⟨front, hjoin, hne, hpieces⟩ := exists_pieces_join name hempty
  -- With one more piece a path is never the empty one.
  have hlonger : ∀ last, front ++ [last] ≠ [""] := by
    intro last h
    have hlength := congrArg List.length h
    rw [List.length_append, List.length_singleton, List.length_singleton] at hlength
    exact hne (List.eq_nil_of_length_eq_zero (by omega))
  rw [Bool.eq_iff_iff, isAbsolute_iff, isAbsolute_iff, hjoin, List.head?_append_of_ne_nil _ hne]
  obtain ⟨hsame, hname⟩ | hslash := hpieces
  · rw [hsame]
    exact and_congr_right fun _ => iff_of_true (hlonger name) hname
  · rw [hslash, List.head?_append_of_ne_nil _ hne]
    exact and_congr_right fun _ => iff_of_true (hlonger name) (hlonger "")

theorem allSteps_join_name (hempty : path.isEmpty = false) (hname : name ≠ "") :
    (path.join ⟨[name]⟩).allSteps = path.steps ++ [name] := by
  obtain ⟨front, hjoin, -, -⟩ := exists_pieces_join name hempty
  have hend : (path.join ⟨[name]⟩).endsWithSlash = false := by
    unfold endsWithSlash
    rw [hjoin, List.getLast?_concat]
    simp [hname]
  have hstep : (Path.mk [name]).steps = [name] := List.filter_eq_self.mpr (by simp [hname])
  unfold allSteps
  rw [hend, steps_join hempty (isAbsolute_singleton name), hstep]
  exact List.append_nil _

end LintRepair.Path
