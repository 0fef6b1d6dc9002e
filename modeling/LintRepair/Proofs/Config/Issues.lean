import Mathlib.Data.List.Forall2
import Mathlib.Tactic.Common
import LintRepair.Config.Settings
import LintRepair.Proofs.Config.Spelling

/-!
# The issues of a configuration

A configuration is a list of items that are checked one by one: its method, its severities, its
rules with their places, and its output.  `Item.Raises` says of one item which issue it raises, in
terms of what is written there and not of how it is read.

The issues of a configuration come in four parts, one for each kind of items.  Every part goes
through its items and finds one issue or none (`Item.Finds`), so it consists of the issues that its
bad items raise (`raised_flatMap`), and the parts one after the other consist of those that all bad
items raise (`raised_issues`).
-/

namespace LintRepair

open Text (IsCore SameLetter Spells isBlank)

namespace Config

variable {config : Config} {value : String}

/-! ## The output -/

theorem resolveOutput_of_direct
    (hmode : ∀ value, config.mode = some value → IsCore value "direct") :
    config.resolveOutput = if config.dir.isSome then .error .unusedDir else .ok .direct := by
  unfold resolveOutput
  cases hvalue : config.mode with
  | none => rfl
  | some value =>
      rw [Option.map_some, Text.trim_eq_iff.mpr (hmode value hvalue)]
      rfl

theorem resolveOutput_of_copy (hmode : config.mode = some value) (hcopy : IsCore value "copy") :
    config.resolveOutput =
      if (config.dir.getD defaultDir).isEmpty then .error .emptyDir
      else .ok (.copy (Path.ofText (config.dir.getD defaultDir))) := by
  unfold resolveOutput
  rw [hmode, Option.map_some, Text.trim_eq_iff.mpr hcopy]
  rfl

theorem resolveOutput_of_other {core : String} (hmode : config.mode = some value)
    (hcore : IsCore value core) (hdirect : core ≠ "direct") (hcopy : core ≠ "copy") :
    config.resolveOutput = .error (.unknownMode core) := by
  unfold resolveOutput
  rw [hmode, Option.map_some, Text.trim_eq_iff.mpr hcore]
  split
  · next hnone => cases hnone
  · next hsome => exact absurd (Option.some.inj hsome) hdirect
  · next hsome => exact absurd (Option.some.inj hsome) hcopy
  · next hsome => rw [Option.some.inj hsome]

/-- Every mode is one of three kinds. -/
theorem mode_cases (config : Config) :
    (∀ value, config.mode = some value → IsCore value "direct") ∨
    (∃ value, config.mode = some value ∧ IsCore value "copy") ∨
    ∃ value core, config.mode = some value ∧ IsCore value core ∧
      core ≠ "direct" ∧ core ≠ "copy" := by
  cases hmode : config.mode with
  | none => exact Or.inl fun value hvalue => nomatch hvalue
  | some value =>
      have hcore := Text.isCore_trim value
      by_cases hdirect : Text.trim value = "direct"
      · refine Or.inl fun other hother => ?_
        rw [← Option.some.inj hother, ← Text.trim_eq_iff, hdirect]
      · by_cases hcopy : Text.trim value = "copy"
        · exact Or.inr (Or.inl ⟨value, rfl, hcopy ▸ hcore⟩)
        · exact Or.inr (Or.inr ⟨value, Text.trim value, rfl, hcore, hdirect, hcopy⟩)

/-! ## Items -/

/-- One thing that a configuration says. -/
inductive Item where
  | method (value : String)
  | severity (value : String)
  /-- A rule to pass over, and its place in the list of rules. -/
  | rule (index : Nat) (value : String)
  /-- The mode and the directory of the output. -/
  | output (mode dir : Option String)
deriving DecidableEq

namespace Item

/-- What is wrong with an item. -/
inductive Raises : Item → Issue → Prop where
  | unknownMethod {value : String} :
      (∀ method : Method, ¬ Spells Method.SameSign value method.name) →
      Raises (.method value) (.unknownMethod value)
  | unknownSeverity {value : String} :
      (∀ severity : Severity, ¬ Spells SameLetter value severity.name) →
      Raises (.severity value) (.unknownSeverity value)
  | blankRule {index : Nat} {value : String} : (∀ c ∈ value.toList, isBlank c = true) →
      Raises (.rule index value) (.blankRule index)
  | unusedDir {mode : Option String} {dir : String} :
      (∀ value, mode = some value → IsCore value "direct") →
      Raises (.output mode (some dir)) .unusedDir
  | emptyDir {value : String} : IsCore value "copy" →
      Raises (.output (some value) (some "")) .emptyDir
  | unknownMode {value core : String} {dir : Option String} : IsCore value core →
      core ≠ "direct" → core ≠ "copy" → Raises (.output (some value) dir) (.unknownMode core)

/-- Whether anything is wrong with an item. -/
def IsBad (item : Item) : Prop :=
  ∃ issue, item.Raises issue

variable {item : Item} {issue issue' : Issue}

theorem raises_method_iff :
    (method value).Raises issue ↔ Method.parse? value = none ∧ issue = .unknownMethod value := by
  rw [Method.parse?_eq_none_iff]
  constructor
  · intro h
    cases h with
    | unknownMethod hvalue => exact ⟨hvalue, rfl⟩
  · intro h
    obtain ⟨hvalue, rfl⟩ := h
    exact .unknownMethod hvalue

theorem raises_severity_iff :
    (severity value).Raises issue ↔
      Severity.parse? value = none ∧ issue = .unknownSeverity value := by
  rw [Severity.parse?_eq_none_iff]
  constructor
  · intro h
    cases h with
    | unknownSeverity hvalue => exact ⟨hvalue, rfl⟩
  · intro h
    obtain ⟨hvalue, rfl⟩ := h
    exact .unknownSeverity hvalue

theorem raises_rule_iff {index : Nat} :
    (rule index value).Raises issue ↔
      (Text.trim value).isEmpty = true ∧ issue = .blankRule index := by
  rw [Text.isEmpty_trim_iff]
  constructor
  · intro h
    cases h with
    | blankRule hvalue => exact ⟨hvalue, rfl⟩
  · intro h
    obtain ⟨hvalue, rfl⟩ := h
    exact .blankRule hvalue

theorem resolveOutput_of_raises (h : (output config.mode config.dir).Raises issue) :
    config.resolveOutput = .error issue := by
  generalize hitem : output config.mode config.dir = item at h
  cases h with
  | unknownMethod | unknownSeverity | blankRule => cases hitem
  | unusedDir hmode =>
      obtain ⟨rfl, hdir⟩ := output.inj hitem
      rw [resolveOutput_of_direct hmode, hdir]
      rfl
  | emptyDir hcopy =>
      obtain ⟨hmode, hdir⟩ := output.inj hitem
      rw [resolveOutput_of_copy hmode hcopy, hdir]
      rfl
  | unknownMode hcore hdirect hcopy =>
      obtain ⟨hmode, -⟩ := output.inj hitem
      exact resolveOutput_of_other hmode hcore hdirect hcopy

theorem raises_of_resolveOutput (hresult : config.resolveOutput = .error issue) :
    (output config.mode config.dir).Raises issue := by
  rcases config.mode_cases with hmode | ⟨value, hmode, hcopy⟩ |
    ⟨value, core, hmode, hcore, hdirect, hcopy⟩
  · rw [resolveOutput_of_direct hmode] at hresult
    split at hresult
    · next hsome =>
      obtain ⟨dir, hdir⟩ := Option.isSome_iff_exists.mp hsome
      obtain rfl := Except.error.inj hresult
      rw [hdir]
      exact .unusedDir hmode
    · cases hresult
  · rw [resolveOutput_of_copy hmode hcopy] at hresult
    split at hresult
    · next hempty =>
      obtain rfl := Except.error.inj hresult
      -- The default has a name, so a name that is empty was given.
      cases hdir : config.dir with
      | none =>
          rw [hdir] at hempty
          exact absurd hempty (by decide)
      | some dir =>
          rw [hdir, Option.getD_some, String.isEmpty_iff] at hempty
          rw [hmode, hempty]
          exact .emptyDir hcopy
    · cases hresult
  · rw [resolveOutput_of_other hmode hcore hdirect hcopy] at hresult
    obtain rfl := Except.error.inj hresult
    rw [hmode]
    exact .unknownMode hcore hdirect hcopy

theorem raises_output_iff :
    (output config.mode config.dir).Raises issue ↔ config.resolveOutput = .error issue :=
  ⟨resolveOutput_of_raises, raises_of_resolveOutput⟩

/-- Nothing is wrong with an item in two ways. -/
theorem Raises.unique (h : item.Raises issue) (h' : item.Raises issue') : issue = issue' := by
  cases item with
  | method value =>
      rw [raises_method_iff] at h h'
      exact h.2.trans h'.2.symm
  | severity value =>
      rw [raises_severity_iff] at h h'
      exact h.2.trans h'.2.symm
  | rule index value =>
      rw [raises_rule_iff] at h h'
      exact h.2.trans h'.2.symm
  | output mode dir =>
      have hresult : Config.resolveOutput { mode, dir } = .error issue :=
        resolveOutput_of_raises h
      have hresult' : Config.resolveOutput { mode, dir } = .error issue' :=
        resolveOutput_of_raises h'
      exact Except.error.inj (hresult.symm.trans hresult')

/-! ### What is found at an item -/

theorem isBad_iff_of_raises {p : Prop} (h : ∀ other, item.Raises other ↔ p ∧ other = issue) :
    item.IsBad ↔ p := by
  unfold IsBad
  simp only [h, exists_and_left, exists_eq, and_true]

instance : (item : Item) → Decidable item.IsBad
  | .method value =>
      decidable_of_iff (∀ method : Method, ¬ Spells Method.SameSign value method.name) <|
        Method.parse?_eq_none_iff.symm.trans
          (isBad_iff_of_raises fun _ => raises_method_iff).symm
  | .severity value =>
      decidable_of_iff (∀ severity : Severity, ¬ Spells SameLetter value severity.name) <|
        Severity.parse?_eq_none_iff.symm.trans
          (isBad_iff_of_raises fun _ => raises_severity_iff).symm
  | .rule _ value =>
      decidable_of_iff ((Text.trim value).isEmpty = true)
        (isBad_iff_of_raises fun _ => raises_rule_iff).symm
  | .output mode dir =>
      match hresult : Config.resolveOutput { mode, dir } with
      | .ok _ => .isFalse fun ⟨_, h⟩ =>
          nomatch hresult.symm.trans
            (show Config.resolveOutput { mode, dir } = .error _ from resolveOutput_of_raises h)
      | .error issue => .isTrue ⟨issue, raises_of_resolveOutput hresult⟩

/-- The one issue that an item raises is found, and nothing if it raises none. -/
def Finds (item : Item) (found : List Issue) : Prop :=
  found = [] ∧ ¬ item.IsBad ∨ ∃ issue, found = [issue] ∧ item.Raises issue

theorem finds_of_raises {p : Prop} [Decidable p]
    (h : ∀ other, item.Raises other ↔ p ∧ other = issue) :
    item.Finds (if p then [issue] else []) := by
  split
  · next hp => exact Or.inr ⟨issue, rfl, (h issue).mpr ⟨hp, rfl⟩⟩
  · next hp => exact Or.inl ⟨rfl, mt (isBad_iff_of_raises h).mp hp⟩

/-- The issues are those of the bad items among all, one for each of them in their order. -/
def Raised (items : List Item) (issues : List Issue) : Prop :=
  List.Forall₂ Raises (items.filter fun item => item.IsBad) issues

theorem Raised.unique {items : List Item} {issues issues' : List Issue}
    (h : Raised items issues) (h' : Raised items issues') : issues = issues' := by
  have hunique : Relator.RightUnique Raises := fun _ _ _ => Raises.unique
  exact List.right_unique_forall₂' hunique h h'

theorem Raised.length_eq {items : List Item} {issues : List Issue} (h : Raised items issues) :
    issues.length = items.countP fun item => item.IsBad := by
  rw [List.countP_eq_length_filter]
  exact (List.Forall₂.length_eq h).symm

theorem Raised.eq_nil_iff {items : List Item} {issues : List Issue} (h : Raised items issues) :
    issues = [] ↔ ¬ ∃ item ∈ items, item.IsBad := by
  rw [← List.length_eq_zero_iff, h.length_eq, List.countP_eq_zero]
  simp

theorem Raised.append {items others : List Item} {issues issues' : List Issue}
    (h : Raised items issues) (h' : Raised others issues') :
    Raised (items ++ others) (issues ++ issues') := by
  unfold Raised at h h' ⊢
  rw [List.filter_append]
  exact List.rel_append h h'

theorem raised_singleton {found : List Issue} (h : item.Finds found) : Raised [item] found := by
  unfold Raised
  rcases h with ⟨rfl, hgood⟩ | ⟨issue, rfl, hraises⟩
  · rw [List.filter_cons_of_neg (by simpa using hgood)]
    exact .nil
  · have hbad : item.IsBad := ⟨issue, hraises⟩
    rw [List.filter_cons_of_pos (by simpa using hbad)]
    exact .cons hraises .nil

/-- Where the issues of every item are found, those of a whole list are. -/
theorem raised_flatMap {α : Type} {values : List α} {itemOf : α → Item}
    {found : α → List Issue} (hfound : ∀ value, (itemOf value).Finds (found value)) :
    Raised (values.map itemOf) (values.flatMap found) := by
  induction values with
  | nil => exact .nil
  | cons value rest ih =>
      rw [List.map_cons, List.flatMap_cons, ← List.singleton_append]
      exact (raised_singleton (hfound value)).append ih

end Item

/-! ## All items of a configuration -/

def methodItems (config : Config) : List Item :=
  config.method.toList.map .method

def severityItems (config : Config) : List Item :=
  config.severities.map .severity

def ruleItems (config : Config) : List Item :=
  config.skipRules.zipIdx.map fun (rule, index) => .rule index rule

/-- Everything that a configuration says, in the order in which it is checked. -/
def items (config : Config) : List Item :=
  config.methodItems ++ config.severityItems ++ config.ruleItems ++
    [.output config.mode config.dir]

theorem raised_methodItems (config : Config) :
    Item.Raised config.methodItems (issueOf config.resolveMethod) := by
  have hfound : issueOf config.resolveMethod = config.method.toList.flatMap fun value =>
      if Method.parse? value = none then [.unknownMethod value] else [] := by
    unfold resolveMethod
    cases config.method with
    | none => rfl
    | some value =>
        cases hparse : Method.parse? value with
        | none => simp [hparse, issueOf]
        | some method => simp [hparse, issueOf]
  rw [hfound]
  exact Item.raised_flatMap fun value => Item.finds_of_raises fun _ => Item.raises_method_iff

theorem raised_severityItems (config : Config) :
    Item.Raised config.severityItems (config.severities.flatMap fun value =>
      if (Severity.parse? value).isSome then [] else [.unknownSeverity value]) := by
  refine Item.raised_flatMap fun value => ?_
  have hfound := Item.finds_of_raises fun other =>
    (Item.raises_severity_iff : (Item.severity value).Raises other ↔ _)
  cases hparse : Severity.parse? value with
  | none => simpa [hparse] using hfound
  | some severity => simpa [hparse] using hfound

theorem raised_ruleItems (config : Config) :
    Item.Raised config.ruleItems (config.skipRules.zipIdx.flatMap fun (rule, index) =>
      if (Text.trim rule).isEmpty then [.blankRule index] else []) :=
  Item.raised_flatMap fun _ => Item.finds_of_raises fun _ => Item.raises_rule_iff

theorem raised_output (config : Config) :
    Item.Raised [.output config.mode config.dir] (issueOf config.resolveOutput) := by
  refine Item.raised_singleton ?_
  cases hresult : config.resolveOutput with
  | ok output =>
      refine Or.inl ⟨rfl, fun ⟨issue, h⟩ => ?_⟩
      rw [Item.raises_output_iff.mp h] at hresult
      cases hresult
  | error issue => exact Or.inr ⟨issue, rfl, Item.raises_output_iff.mpr hresult⟩

/-- The issues of a configuration are those of its bad items. -/
theorem raised_issues (config : Config) : Item.Raised config.items config.issues :=
  (((raised_methodItems config).append (raised_severityItems config)).append
    (raised_ruleItems config)).append (raised_output config)

/-! ## Settings or issues -/

/-- Nothing is settled as long as there are issues, and then all of them are told. -/
theorem settings_of_issues (hissues : config.issues ≠ []) :
    config.settings = .error config.issues := by
  unfold settings
  split
  · rw [if_neg (by rwa [List.isEmpty_iff])]
  · rfl

/-- Without issues, everything is settled. -/
theorem settings_of_issues_eq_nil (hissues : config.issues = []) :
    ∃ method output, config.resolveMethod = .ok method ∧ config.resolveOutput = .ok output ∧
      config.settings = .ok {
        method, output
        severities := Severity.sorted (config.severities.filterMap Severity.parse?)
        skipRules := sortedTexts (config.skipRules.map Text.trim) } := by
  have hparts := hissues
  unfold issues at hparts
  simp only [List.append_eq_nil_iff] at hparts
  obtain ⟨⟨⟨hmethod, -⟩, -⟩, houtput⟩ := hparts
  unfold settings
  rw [hissues]
  -- A method or an output that cannot be settled would be an issue.
  cases hm : config.resolveMethod with
  | error issue =>
      rw [hm] at hmethod
      cases hmethod
  | ok method =>
      cases ho : config.resolveOutput with
      | error issue =>
          rw [ho] at houtput
          cases houtput
      | ok output => exact ⟨method, output, rfl, rfl, rfl⟩

theorem settings_eq_error_iff {issues : List Issue} :
    config.settings = .error issues ↔ config.issues ≠ [] ∧ issues = config.issues := by
  by_cases hissues : config.issues = []
  · obtain ⟨method, output, -, -, hsettings⟩ := settings_of_issues_eq_nil hissues
    simp [hsettings, hissues]
  · rw [settings_of_issues hissues, Except.error.injEq]
    exact ⟨fun h => ⟨hissues, h.symm⟩, fun h => h.2.symm⟩

/-- A configuration is refused exactly if one of its items is bad, and then for all of them: the
issues are those that the bad items raise, one for each in the order of the items, so that there are
as many as bad methods, severities, rules and outputs together. -/
theorem settings_refuses_every_bad_item (config : Config) :
    ((∃ issues, config.settings = .error issues) ↔ ∃ item ∈ config.items, item.IsBad) ∧
    (∀ issues, config.settings = .error issues ↔
      (∃ item ∈ config.items, item.IsBad) ∧ Item.Raised config.items issues) ∧
    ∀ issues, config.settings = .error issues →
      issues.length = (config.methodItems.countP fun item => item.IsBad) +
        (config.severityItems.countP fun item => item.IsBad) +
        (config.ruleItems.countP fun item => item.IsBad) +
        if (Item.output config.mode config.dir).IsBad then 1 else 0 := by
  have hraised := raised_issues config
  have hbad : config.issues ≠ [] ↔ ∃ item ∈ config.items, item.IsBad := by
    rw [Ne, hraised.eq_nil_iff, not_not]
  -- The bad items determine the issues that they raise.
  have herror : ∀ issues, config.settings = .error issues ↔
      (∃ item ∈ config.items, item.IsBad) ∧ Item.Raised config.items issues := by
    intro issues
    rw [settings_eq_error_iff, hbad]
    refine and_congr_right fun _ => ⟨fun h => h ▸ hraised, fun h => h.unique hraised⟩
  refine ⟨⟨?_, ?_⟩, herror, ?_⟩
  · intro h
    obtain ⟨issues, hissues⟩ := h
    exact ((herror issues).mp hissues).1
  · intro h
    exact ⟨config.issues, (herror _).mpr ⟨h, hraised⟩⟩
  · intro issues hissues
    rw [((herror issues).mp hissues).2.length_eq]
    unfold items
    simp only [List.countP_append, List.countP_singleton, decide_eq_true_eq]

theorem settings_refuses_every_bad_item_four :
    let config : Config :=
      { method := some "interactive", severities := [" Warning", "fatal"],
        skipRules := ["ok", "\u3000 "], mode := some " patch ", dir := some "out" }
    let issues : List Issue := [.unknownMethod "interactive", .unknownSeverity "fatal",
      .blankRule 1, .unknownMode "patch"]
    config.settings = .error issues ∧ issues.length = 1 + 1 + 1 + 1 := by
  intro config issues
  obtain ⟨-, herror, hlength⟩ := settings_refuses_every_bad_item config
  have hbad : (config.items.filter fun item => item.IsBad) = [.method "interactive",
      .severity "fatal", .rule 1 "\u3000 ", .output (some " patch ") (some "out")] := by decide
  have hraised : Item.Raised config.items issues := by
    unfold Item.Raised
    rw [hbad]
    have hmethod : Item.Raises (.method "interactive") (.unknownMethod "interactive") :=
      .unknownMethod (by decide)
    have hrule : Item.Raises (.rule 1 "\u3000 ") (.blankRule 1) :=
      .blankRule (Text.isEmpty_trim_iff.mp (by decide))
    exact .cons hmethod (.cons (.unknownSeverity (by decide)) (.cons hrule
      (.cons (.unknownMode (by decide) (by decide) (by decide)) .nil)))
  have hsettings : config.settings = .error issues :=
    (herror issues).mpr ⟨⟨.method "interactive", by decide, by decide⟩, hraised⟩
  exact ⟨hsettings, (hlength issues hsettings).trans (by decide)⟩

end Config

end LintRepair
