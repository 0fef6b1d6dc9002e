import Mathlib.Data.List.Basic
import Mathlib.Logic.Function.Basic
import Mathlib.Tactic.Common
import LintRepair.Method
import LintRepair.Proofs.Text.Blank
import LintRepair.Severity

/-!
# How severities and methods are spelled

A severity is looked up by the small letters of what stands between blanks, a method in the same
way with hyphens for underscores.  `Severity.parse?_eq_some_iff` and `Method.parse?_eq_some_iff` say
what a text has to look like to be found, without saying how it is looked up.
-/

namespace LintRepair

/-- Where names tell things apart, looking for a name finds the thing that has it. -/
theorem find?_name_eq_some_iff {α : Type} {all : List α} {name : α → String}
    (hall : ∀ item, item ∈ all) (hname : Function.Injective name) {word : String} {item : α} :
    (all.find? fun other => name other == word) = some item ↔ word = name item := by
  constructor
  · intro hfound
    have hword := List.find?_some hfound
    exact (beq_iff_eq.mp hword).symm
  · rintro rfl
    cases hfound : all.find? fun other => name other == name item with
    | none => exact absurd (List.find?_eq_none.mp hfound item (hall item)) (by simp)
    | some other =>
        have hother := List.find?_some hfound
        rw [hname (beq_iff_eq.mp hother)]

namespace Severity

theorem mem_all (severity : Severity) : severity ∈ all := by
  cases severity <;> decide

theorem name_injective : Function.Injective name := by
  intro severity other
  cases severity <;> cases other <;> decide

theorem toLower_of_mem_name (severity : Severity) :
    ∀ c ∈ severity.name.toList, c.toLower = c := by
  have hall : (severity.name.toList.all fun c => c.toLower == c) = true := by
    cases severity <;> decide
  exact fun c hc => beq_iff_eq.mp (List.all_eq_true.mp hall c hc)

/-- A text means the severity that it spells, in any letter case. -/
theorem parse?_eq_some_iff {text : String} {severity : Severity} :
    parse? text = some severity ↔ Text.Spells Text.SameLetter text severity.name := by
  unfold parse? ofName? Text.lower
  rw [find?_name_eq_some_iff mem_all name_injective]
  refine Text.map_trim_eq_iff_spells fun c d hd => ?_
  rw [← Text.toLower_eq_toLower_iff, severity.toLower_of_mem_name d hd]

/-- A text means no severity if it spells none. -/
theorem parse?_eq_none_iff {text : String} :
    parse? text = none ↔
      ∀ severity : Severity, ¬ Text.Spells Text.SameLetter text severity.name := by
  simp only [Option.eq_none_iff_forall_ne_some, ne_eq, parse?_eq_some_iff]

instance {p : Severity → Prop} [DecidablePred p] : Decidable (∀ severity, p severity) :=
  decidable_of_iff (∀ severity ∈ all, p severity)
    ⟨fun h severity => h severity severity.mem_all, fun h severity _ => h severity⟩

end Severity

namespace Method

/-- Whether characters are the same up to letter case, and an underscore up to the hyphen that it
stands for. -/
def SameSign (c d : Char) : Prop :=
  Text.SameLetter c d ∨ c = '_' ∧ d = '-'

instance : DecidableRel SameSign :=
  fun _ _ => inferInstanceAs (Decidable (_ ∨ _ ∧ _))

theorem mem_all (method : Method) : method ∈ all := by
  cases method <;> decide

theorem name_injective : Function.Injective name := by
  intro method other
  cases method <;> cases other <;> decide

theorem toLower_of_mem_name (method : Method) :
    ∀ c ∈ method.name.toList, c.toLower = c ∧ c ≠ '_' := by
  have hall : (method.name.toList.all fun c => c.toLower == c && c != '_') = true := by
    cases method <;> decide
  intro c hc
  have hboth := List.all_eq_true.mp hall c hc
  rw [Bool.and_eq_true, beq_iff_eq, bne_iff_ne] at hboth
  exact hboth

theorem toLower_eq_underscore_iff {c : Char} : c.toLower = '_' ↔ c = '_' := by
  have hsmall : '_'.toLower = '_' := rfl
  rw [← hsmall, Text.toLower_eq_toLower_iff]
  constructor
  · rintro (heq | ⟨hfirst, -, hcode⟩ | ⟨-, hlast, -⟩)
    · exact heq
    · have hcapital : 65 ≤ c.toNat := UInt32.le_iff_toNat_le.mp hfirst
      rw [show '_'.toNat = 95 from rfl] at hcode
      omega
    · exact absurd hlast (by decide)
  · rintro rfl
    exact Or.inl rfl

theorem hyphen_eq_iff (method : Method) {c d : Char} (hd : d ∈ method.name.toList) :
    (if c.toLower = '_' then '-' else c.toLower) = d ↔ SameSign c d := by
  obtain ⟨hsmall, hsign⟩ := method.toLower_of_mem_name d hd
  unfold SameSign
  rw [← Text.toLower_eq_toLower_iff, hsmall]
  split
  next hc =>
    rw [hc, toLower_eq_underscore_iff.mp hc]
    simp [Ne.symm hsign, eq_comm]
  next hc =>
    have hother : c ≠ '_' := fun h => hc (toLower_eq_underscore_iff.mpr h)
    simp [hother]

/-- A text means the method that it spells, in any letter case and with underscores for hyphens. -/
theorem parse?_eq_some_iff {text : String} {method : Method} :
    parse? text = some method ↔ Text.Spells SameSign text method.name := by
  unfold parse? hyphenated Text.lower
  dsimp only
  rw [find?_name_eq_some_iff mem_all name_injective, String.map_map]
  exact Text.map_trim_eq_iff_spells fun c d hd => method.hyphen_eq_iff hd

/-- A text means no method if it spells none. -/
theorem parse?_eq_none_iff {text : String} :
    parse? text = none ↔ ∀ method : Method, ¬ Text.Spells SameSign text method.name := by
  simp only [Option.eq_none_iff_forall_ne_some, ne_eq, parse?_eq_some_iff]

instance {p : Method → Prop} [DecidablePred p] : Decidable (∀ method, p method) :=
  decidable_of_iff (∀ method ∈ all, p method)
    ⟨fun h method => h method method.mem_all, fun h method _ => h method⟩

end Method

end LintRepair
