import Mathlib.Data.List.TakeWhile
import Mathlib.Tactic.Common
import LintRepair.Proofs.Path.Lexical

/-!
# The paths above a path

Going to the path above takes at least one piece away, so a path has no more paths above it than
pieces (`depth_lt_of_parent`), and the list of its ancestors never stops early: it has every path
above it, in the place that says how many steps there are to it (`getElem?_ancestors`).
-/

namespace LintRepair.Path

variable {path parent start : Path} {allowance : Nat}

/-- How many paths there are above a path, at most. -/
def depth (path : Path) : Nat :=
  if trimEnd path.pieces = [""] then 0 else (trimEnd path.pieces).length

theorem trimEnd_length_le (pieces : List String) : (trimEnd pieces).length ≤ pieces.length := by
  cases pieces with
  | nil => exact Nat.le_refl _
  | cons first rest =>
      have hkept := (List.dropWhile_sublist (fun piece => piece == "" || piece == ".")
        (l := rest.reverse)).length_le
      simp only [trimEnd, List.length_cons, List.length_reverse] at hkept ⊢
      omega

theorem depth_le_length (path : Path) : path.depth ≤ path.pieces.length := by
  unfold depth
  split
  · exact Nat.zero_le _
  · exact trimEnd_length_le _

theorem depth_lt_of_parent (hparent : path.parent? = some parent) : parent.depth < path.depth := by
  unfold parent? at hparent
  split at hparent
  · exact absurd hparent (by simp)
  · next piece hpiece =>
    split at hparent
    · exact absurd hparent (by simp)
    next hname =>
    rw [Bool.or_eq_true, decide_eq_true_eq, not_or] at hname
    -- A single name has the empty path above it.
    obtain rfl : empty = parent := Option.some.inj hparent
    have hdepth : path.depth = 1 := by
      unfold depth
      rw [hpiece, if_neg (by simpa using hname.2), List.length_singleton]
    rw [hdepth]
    decide
  · next hnone hsingle =>
    have hdepth : path.depth = (trimEnd path.pieces).length := if_neg (hsingle "")
    -- With two pieces or more the last goes, and what is trimmed behind it makes the path shorter
    -- still.
    have hlength : 2 ≤ (trimEnd path.pieces).length := by
      cases hpieces : trimEnd path.pieces with
      | nil => exact absurd hpieces hnone
      | cons first rest =>
          cases rest with
          | nil => exact absurd hpieces (hsingle first)
          | cons second rest => simp
    dsimp only at hparent
    split at hparent
    · obtain rfl : root = parent := Option.some.inj hparent
      have hroot : root.depth = 0 := by decide
      omega
    · obtain rfl := Option.some.inj hparent
      have habove := trimEnd_length_le (trimEnd path.pieces).dropLast
      have hpieces := depth_le_length ⟨trimEnd (trimEnd path.pieces).dropLast⟩
      rw [List.length_dropLast] at habove
      dsimp only at hpieces
      omega

/-- The path that is a number of steps above a path, if there are that many. -/
def above? : Nat → Path → Option Path
  | 0, path => some path
  | steps + 1, path => path.parent?.bind (above? steps)

theorem above?_succ (steps : Nat) (path : Path) :
    above? (steps + 1) path = (above? steps path).bind parent? := by
  induction steps generalizing path with
  | zero =>
      rw [above?, above?, Option.bind_some]
      cases path.parent? <;> rfl
  | succ steps ih =>
      rw [above?, above?, Option.bind_assoc]
      exact congrArg path.parent?.bind (funext ih)

theorem getElem?_ancestorsWithin (hdepth : start.depth ≤ allowance) (steps : Nat) :
    (ancestorsWithin allowance start)[steps]? = above? steps start := by
  induction allowance generalizing start steps with
  | zero =>
      -- At depth zero nothing is above, so an empty allowance cuts nothing off.
      have hroot : start.parent? = none := by
        refine Option.eq_none_iff_forall_ne_some.mpr fun parent hparent => ?_
        have hlower := depth_lt_of_parent hparent
        omega
      cases steps with
      | zero => rfl
      | succ steps => rw [above?, hroot]; rfl
  | succ allowance ih =>
      rw [ancestorsWithin]
      cases habove : start.parent? with
      | none =>
          cases steps with
          | zero => rfl
          | succ steps => rw [above?, habove]; rfl
      | some above =>
          have hlower := depth_lt_of_parent habove
          cases steps with
          | zero => rfl
          | succ steps =>
              rw [above?, habove, List.getElem?_cons_succ, ih (by omega), Option.bind_some]

/-- The ancestors of a path are all the paths above it, by their number of steps. -/
theorem getElem?_ancestors (start : Path) (steps : Nat) :
    start.ancestors[steps]? = above? steps start :=
  getElem?_ancestorsWithin (Nat.le_succ_of_le start.depth_le_length) steps

theorem mem_ancestors_iff : path ∈ start.ancestors ↔ ∃ steps, above? steps start = some path := by
  simp only [List.mem_iff_getElem?, getElem?_ancestors]

theorem self_mem_ancestors (path : Path) : path ∈ path.ancestors :=
  mem_ancestors_iff.mpr ⟨0, rfl⟩

/-- With a path there is the one above it. -/
theorem mem_ancestors_of_parent (hpath : path ∈ start.ancestors)
    (hparent : path.parent? = some parent) : parent ∈ start.ancestors := by
  obtain ⟨steps, hsteps⟩ := mem_ancestors_iff.mp hpath
  refine mem_ancestors_iff.mpr ⟨steps + 1, ?_⟩
  rw [above?_succ, hsteps, Option.bind_some, hparent]

/-! ## Above a location -/

theorem trimEnd_of_isProper {location : Location} (hproper : location.IsProper) :
    trimEnd ("" :: location) = "" :: location := by
  rw [trimEnd, List.dropWhile_eq_self_iff.mpr, List.reverse_reverse]
  intro hlength
  have hname := hproper _ (List.mem_reverse.mp (List.getElem_mem hlength))
  rw [Bool.or_eq_true, beq_iff_eq, beq_iff_eq]
  exact not_or.mpr ⟨hname.ne_empty, hname.ne_here⟩

theorem parent_path {location : Location} (hproper : location.IsProper) :
    location.path.parent? =
      if location = [] then none else some (Location.path location.dropLast) := by
  cases location with
  | nil => rfl
  | cons name rest =>
      have habove := trimEnd_of_isProper hproper.dropLast
      have hpieces : trimEnd (Location.path (name :: rest)).pieces = "" :: name :: rest :=
        trimEnd_of_isProper hproper
      rw [if_neg (List.cons_ne_nil name rest), parent?, hpieces]
      dsimp only
      rw [List.dropLast_cons_of_ne_nil (List.cons_ne_nil name rest), habove]
      cases hrest : (name :: rest).dropLast with
      | nil => rfl
      | cons first more => rw [if_neg (by simp)]; rfl

/-- Above the path of a location are the paths of its beginnings, down to the root. -/
theorem above?_path {location : Location} (hproper : location.IsProper) (steps : Nat) :
    above? steps location.path = if steps ≤ location.length then
      some (Location.path (location.take (location.length - steps))) else none := by
  induction steps generalizing location with
  | zero => simp [above?]
  | succ steps ih =>
      rw [above?, parent_path hproper]
      split
      next hnil => simp [hnil]
      next hne =>
        have hlength := List.length_pos_iff.mpr hne
        have htake : location.dropLast.take (location.length - 1 - steps) =
            location.take (location.length - (steps + 1)) := by
          rw [List.dropLast_eq_take, List.take_take, min_eq_left (by omega), Nat.sub_sub,
            Nat.add_comm 1]
        rw [Option.bind_some, ih hproper.dropLast, List.length_dropLast, htake]
        by_cases hsteps : steps + 1 ≤ location.length
        · rw [if_pos hsteps, if_pos (by omega)]
        · rw [if_neg hsteps, if_neg (by omega)]

end LintRepair.Path
