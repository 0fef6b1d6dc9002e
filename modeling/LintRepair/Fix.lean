import LintRepair.Replacement

/-!
# Fixes and conflicts

A fix bundles the replacements that one rule proposes against one violation; they land together or
not at all. So no two replacements of a fix may overlap, which is part of the type, and `Fix.make`
finds the first pair in the way. Two *fixes* conflict when some replacement of the one overlaps some
replacement of the other.
-/

namespace LintRepair

/-- The first overlapping pair of a list: the earliest replacement that overlaps a later one, with
the earliest such later one. -/
def firstOverlap : List Replacement → Option (Replacement × Replacement)
  | [] => none
  | r :: rest =>
      match rest.find? fun other => decide (r.Overlaps other) with
      | some other => some (r, other)
      | none => firstOverlap rest

/-- No pair is found exactly when no two replacements at different positions overlap. -/
theorem firstOverlap_eq_none_iff {replacements : List Replacement} :
    firstOverlap replacements = none ↔ replacements.Pairwise fun a b => ¬ a.Overlaps b := by
  induction replacements with
  | nil => simp [firstOverlap]
  | cons r rest ih =>
    rw [firstOverlap, List.pairwise_cons]
    split
    next other hfound =>
      have hmem := List.mem_of_find?_eq_some hfound
      have hoverlaps : r.Overlaps other := by simpa using List.find?_some hfound
      simp only [reduceCtorEq, false_iff, not_and]
      exact fun hnone => absurd hoverlaps (hnone other hmem)
    next hnone =>
      rw [ih]
      simp only [List.find?_eq_none, decide_eq_true_eq] at hnone
      exact ⟨fun hpairwise => ⟨hnone, hpairwise⟩, And.right⟩

/-- Replacements that belong together, proposed by a rule. The description is shown to people and
may be empty. -/
structure Fix where
  rule : String
  description : String
  replacements : List Replacement
  disjoint : replacements.Pairwise fun a b => ¬ a.Overlaps b
deriving DecidableEq

inductive FixError where
  | overlap (rule : String) (first second : Span)
deriving DecidableEq, Repr

def FixError.message : FixError → String
  | .overlap rule first second =>
      "Fix from rule `" ++ rule ++ "` has overlapping replacements: " ++ first.render ++ " and " ++
        second.render

namespace Fix

def make (rule description : String) (replacements : List Replacement) : Except FixError Fix :=
  match hfound : firstOverlap replacements with
  | some (first, second) => .error (.overlap rule first.span second.span)
  | none => .ok ⟨rule, description, replacements, firstOverlap_eq_none_iff.mp hfound⟩

/-- The fix that consists of one replacement and has no description. -/
def single (rule : String) (replacement : Replacement) : Fix :=
  ⟨rule, "", [replacement], List.pairwise_singleton ..⟩

/-- What to call the fix in a listing: its description or, without one, its rule. -/
def label (fix : Fix) : String :=
  if fix.description.isEmpty then fix.rule else fix.description

/-- Two fixes are in each other's way. -/
def Conflicts (a b : Fix) : Prop :=
  ∃ r ∈ a.replacements, ∃ s ∈ b.replacements, r.Overlaps s

instance (a b : Fix) : Decidable (a.Conflicts b) :=
  inferInstanceAs (Decidable (∃ r ∈ a.replacements, ∃ s ∈ b.replacements, r.Overlaps s))

theorem conflicts_comm {a b : Fix} : a.Conflicts b ↔ b.Conflicts a := by
  constructor
  · rintro ⟨r, hr, s, hs, hoverlaps⟩
    exact ⟨s, hs, r, hr, Replacement.overlaps_comm.mp hoverlaps⟩
  · rintro ⟨r, hr, s, hs, hoverlaps⟩
    exact ⟨s, hs, r, hr, Replacement.overlaps_comm.mp hoverlaps⟩

end Fix

end LintRepair
