import Mathlib.Data.List.Basic
import Mathlib.Tactic.Common
import LintRepair.Proofs.Config.Issues
import LintRepair.Proofs.Text.Ascending

/-!
# Which failures a configuration accepts

Settings hold the severities and rules of a configuration as they are understood, and no severities
mean all of them.  An entry that is not understood must therefore never be dropped: it would leave
fewer severities, and in the end none.  `settings_eq_ok_iff` says that there are settings only if
every entry is understood, so what settings accept can be read off the entries as they were written
(`accepts_iff`): the severity is one that an entry spells, unless there are no entries, and no entry
has the rule for its core.

Both lists of the settings are in a fixed order, with everything in them once.  So they depend only
on what is among the entries, and not on how often or in which order (`sorted_congr`,
`sortedTexts_congr`).
-/

namespace LintRepair

open Text (IsCore SameLetter Spells)

/-! ## Sorted lists -/

theorem Severity.mem_sorted {severities : List Severity} {severity : Severity} :
    severity ∈ sorted severities ↔ severity ∈ severities := by
  unfold sorted
  rw [List.mem_filter, List.contains_iff_mem]
  exact and_iff_right severity.mem_all

theorem Severity.sorted_congr {severities others : List Severity}
    (hmem : ∀ severity, severity ∈ severities ↔ severity ∈ others) :
    sorted severities = sorted others := by
  refine List.filter_congr fun severity _ => ?_
  rw [Bool.eq_iff_iff, List.contains_iff_mem, List.contains_iff_mem, hmem]

theorem mem_sortedTexts {texts : List String} {text : String} :
    text ∈ sortedTexts texts ↔ text ∈ texts := by
  unfold sortedTexts
  rw [List.mem_mergeSort, List.mem_eraseDups]

theorem sortedTexts_congr {texts others : List String}
    (hmem : ∀ text, text ∈ texts ↔ text ∈ others) : sortedTexts texts = sortedTexts others := by
  have hsorted : ∀ texts, Text.IsAscending (sortedTexts texts) :=
    fun texts => Text.isAscending_mergeSort (Text.nodup_eraseDups texts)
  refine (hsorted texts).eq_of_mem_iff (hsorted others) fun text => ?_
  rw [mem_sortedTexts, mem_sortedTexts, hmem]

namespace Config

variable {config : Config} {settings : Settings} {severity : Severity} {rule : String}

/-! ## Entries that are understood -/

/-- Whether failures of a severity may be repaired: there are no severities in the configuration, or
one of them spells it. -/
def Admits (config : Config) (severity : Severity) : Prop :=
  config.severities = [] ∨ ∃ value ∈ config.severities, Spells SameLetter value severity.name

/-- Whether failures of a rule are left alone: the rule is the core of one of those in the
configuration. -/
def Skips (config : Config) (rule : String) : Prop :=
  ∃ value ∈ config.skipRules, IsCore value rule

theorem issueOf_eq_nil_iff {α : Type} {result : Except Issue α} :
    issueOf result = [] ↔ ∃ value, result = .ok value := by
  cases result with
  | ok value => simp [issueOf]
  | error issue => simp [issueOf]

theorem issues_eq_nil_iff :
    config.issues = [] ↔ (∃ method, config.resolveMethod = .ok method) ∧
      (∀ value ∈ config.severities, (Severity.parse? value).isSome = true) ∧
      (∀ value ∈ config.skipRules, (Text.trim value).isEmpty = false) ∧
      ∃ output, config.resolveOutput = .ok output := by
  have hrules : (∀ entry ∈ config.skipRules.zipIdx, (Text.trim entry.1).isEmpty = false) ↔
      ∀ value ∈ config.skipRules, (Text.trim value).isEmpty = false := by
    rw [← List.forall_mem_map (f := Prod.fst) (P := fun value => (Text.trim value).isEmpty = false),
      List.zipIdx_map_fst]
  have hdropped : ∀ {p : Prop} [Decidable p] (issue : Issue),
      (if p then [] else [issue]) = [] ↔ p := by
    intro p _ issue
    simp
  have hraised : ∀ {p : Prop} [Decidable p] (issue : Issue),
      (if p then [issue] else []) = [] ↔ ¬ p := by
    intro p _ issue
    simp
  rw [← hrules]
  unfold issues
  simp only [List.append_eq_nil_iff, issueOf_eq_nil_iff, List.flatMap_eq_nil_iff, hdropped, hraised,
    Bool.not_eq_true, and_assoc]

/-- There are settings exactly if all entries are understood, and they hold what the entries mean.
-/
theorem settings_eq_ok_iff :
    config.settings = .ok settings ↔ config.issues = [] ∧
      config.resolveMethod = .ok settings.method ∧ config.resolveOutput = .ok settings.output ∧
      settings.severities = Severity.sorted (config.severities.filterMap Severity.parse?) ∧
      settings.skipRules = sortedTexts (config.skipRules.map Text.trim) := by
  by_cases hissues : config.issues = []
  · obtain ⟨method, output, hmethod, houtput, hsettings⟩ := settings_of_issues_eq_nil hissues
    rw [hsettings, hmethod, houtput]
    constructor
    · intro h
      obtain rfl := Except.ok.inj h
      exact ⟨hissues, rfl, rfl, rfl, rfl⟩
    · intro h
      obtain ⟨-, hm, ho, hseverities, hrules⟩ := h
      obtain ⟨_, _, _, _⟩ := settings
      dsimp only at hm ho hseverities hrules
      rw [Except.ok.inj hm, Except.ok.inj ho, hseverities, hrules]
  · rw [settings_of_issues hissues]
    simp [hissues]

theorem mem_severities_iff (hsettings : config.settings = .ok settings) :
    severity ∈ settings.severities ↔
      ∃ value ∈ config.severities, Spells SameLetter value severity.name := by
  obtain ⟨-, -, -, hseverities, -⟩ := settings_eq_ok_iff.mp hsettings
  rw [hseverities, Severity.mem_sorted, List.mem_filterMap]
  simp only [Severity.parse?_eq_some_iff]

theorem mem_skipRules_iff (hsettings : config.settings = .ok settings) :
    rule ∈ settings.skipRules ↔ config.Skips rule := by
  obtain ⟨-, -, -, -, hrules⟩ := settings_eq_ok_iff.mp hsettings
  rw [hrules, mem_sortedTexts, List.mem_map]
  simp only [Text.trim_eq_iff, Skips]

/-- No severities are left only if none were there, because one that is not understood is an issue.
-/
theorem severities_eq_nil_iff (hsettings : config.settings = .ok settings) :
    settings.severities = [] ↔ config.severities = [] := by
  obtain ⟨hissues, -, -, hseverities, -⟩ := settings_eq_ok_iff.mp hsettings
  constructor
  · intro hnone
    refine List.eq_nil_iff_forall_not_mem.mpr fun value hvalue => ?_
    have hparse := (issues_eq_nil_iff.mp hissues).2.1 value hvalue
    obtain ⟨severity, hseverity⟩ := Option.isSome_iff_exists.mp hparse
    have hmem : severity ∈ settings.severities :=
      (mem_severities_iff hsettings).mpr ⟨value, hvalue, Severity.parse?_eq_some_iff.mp hseverity⟩
    rw [hnone] at hmem
    exact List.not_mem_nil hmem
  · intro hnone
    rw [hseverities, hnone]
    rfl

/-- What is accepted can be read off the entries of the configuration. -/
theorem accepts_iff (hsettings : config.settings = .ok settings) {failure : Failure} :
    settings.accepts failure = true ↔
      config.Admits failure.severity ∧ ¬ config.Skips failure.rule := by
  unfold Settings.accepts Admits
  rw [Bool.and_eq_true, Bool.or_eq_true, List.isEmpty_iff, List.contains_iff_mem,
    Bool.not_eq_true', ← Bool.not_eq_true, List.contains_iff_mem, severities_eq_nil_iff hsettings,
    mem_severities_iff hsettings, mem_skipRules_iff hsettings]

/-! ## Other entries -/

/-- The same entries in another order or number mean the same. -/
theorem settings_congr {severities skipRules : List String}
    (hseverities : ∀ value, value ∈ severities ↔ value ∈ config.severities)
    (hrules : ∀ value, value ∈ skipRules ↔ value ∈ config.skipRules)
    (hsettings : config.settings = .ok settings) :
    Config.settings { config with severities, skipRules } = .ok settings := by
  rw [settings_eq_ok_iff, issues_eq_nil_iff] at hsettings ⊢
  obtain ⟨⟨hm, hs, hr, ho⟩, hmethod, houtput, hsorted, hskipped⟩ := hsettings
  refine ⟨⟨hm, fun value hvalue => hs value ((hseverities value).mp hvalue),
    fun value hvalue => hr value ((hrules value).mp hvalue), ho⟩, hmethod, houtput, ?_, ?_⟩
  · rw [hsorted]
    refine Severity.sorted_congr fun severity => ?_
    simp only [List.mem_filterMap, hseverities]
  · rw [hskipped]
    refine sortedTexts_congr fun text => ?_
    simp only [List.mem_map, hrules]

theorem Skips.mono {other : Config} (hsub : config.skipRules ⊆ other.skipRules)
    (h : config.Skips rule) : other.Skips rule := by
  obtain ⟨value, hvalue, hcore⟩ := h
  exact ⟨value, hsub hvalue, hcore⟩

/-- Settings accept a failure exactly if the entries of their configuration admit its severity and
do not have its rule passed over.  So entries in another order or number make the same settings,
more rules to pass over only accept less, and where there are severities, one that none of them
spells is never accepted. -/
theorem accepts_by_entries (config : Config) (settings : Settings)
    (hsettings : config.settings = .ok settings) :
    (∀ failure, settings.accepts failure = true ↔
      (config.severities = [] ∨
        ∃ value ∈ config.severities, Spells SameLetter value failure.severity.name) ∧
      ¬ ∃ value ∈ config.skipRules, IsCore value failure.rule) ∧
    (∀ severities skipRules : List String,
      (∀ value, value ∈ severities ↔ value ∈ config.severities) →
      (∀ value, value ∈ skipRules ↔ value ∈ config.skipRules) →
        Config.settings { config with severities, skipRules } = .ok settings) ∧
    (∀ (skipRules : List String) (fewer : Settings), config.skipRules ⊆ skipRules →
      Config.settings { config with skipRules } = .ok fewer →
        ∀ failure, fewer.accepts failure = true → settings.accepts failure = true) ∧
    (config.severities ≠ [] → ∀ severity : Severity,
      (∀ value ∈ config.severities, ¬ Spells SameLetter value severity.name) →
        ∀ failure : Failure, failure.severity = severity → settings.accepts failure = false) := by
  refine ⟨fun failure => accepts_iff hsettings, ?_, ?_, ?_⟩
  · intro severities skipRules hseverities hrules
    exact settings_congr hseverities hrules hsettings
  · -- The severities are the same, so only the rules to pass over count.
    intro skipRules fewer hsub hfewer failure haccepts
    obtain ⟨hadmits, hskips⟩ := (accepts_iff hfewer).mp haccepts
    exact (accepts_iff hsettings).mpr ⟨hadmits, mt (Skips.mono hsub) hskips⟩
  · intro hsome severity hspells failure hseverity
    rw [← Bool.not_eq_true, accepts_iff hsettings]
    intro h
    obtain hnone | ⟨value, hvalue, hname⟩ := h.1
    · exact hsome hnone
    · exact hspells value hvalue (hseverity ▸ hname)

theorem accepts_by_entries_two :
    let config : Config := { severities := [" Error"] }
    let settings : Settings := { severities := [.error] }
    let fewer : Settings := { settings with skipRules := ["max-line-length"] }
    let failure (severity : Severity) : Failure :=
      .clamped "src/main.rs" "max-line-length" 0 1 "" severity
    config.settings = .ok settings ∧
      Config.settings { config with severities := [" Error", " Error"] } = .ok settings ∧
      Config.settings { config with skipRules := [" max-line-length\t"] } = .ok fewer ∧
      (settings.accepts (failure .error) = true ∧ settings.accepts (failure .warning) = false) ∧
      (fewer.accepts (failure .error) = false ∧ fewer.accepts (failure .warning) = false) := by
  intro config settings fewer failure
  have hparse : Severity.parse? " Error" = some .error :=
    Severity.parse?_eq_some_iff.mpr (by decide)
  have hmade : ∀ skipRules texts, (∀ value ∈ skipRules, (Text.trim value).isEmpty = false) →
      texts = sortedTexts (skipRules.map Text.trim) →
        Config.settings { config with skipRules } = .ok { settings with skipRules := texts } := by
    intro skipRules texts hrules htexts
    have hseverities : ∀ value ∈ config.severities, (Severity.parse? value).isSome = true := by
      intro value hvalue
      rw [List.mem_singleton.mp hvalue, hparse]
      rfl
    have hissues : Config.issues { config with skipRules } = [] :=
      issues_eq_nil_iff.mpr ⟨⟨.inPlace, rfl⟩, hseverities, hrules, .direct, rfl⟩
    refine settings_eq_ok_iff.mpr ⟨hissues, rfl, rfl, ?_, htexts⟩
    rw [List.filterMap_cons_some hparse]
    rfl
  have hsettings : config.settings = .ok settings := hmade [] [] (by decide) (by simp [sortedTexts])
  have hrule : Text.trim " max-line-length\t" = "max-line-length" := by decide
  have hfewer : Config.settings { config with skipRules := [" max-line-length\t"] } = .ok fewer :=
    hmade _ _ (by decide) (by simp [hrule, sortedTexts, List.eraseDups_cons])
  obtain ⟨haccepts, hcongr, hmono, hnever⟩ := accepts_by_entries config settings hsettings
  have hwarning : settings.accepts (failure .warning) = false :=
    hnever (by decide) .warning (by decide) _ rfl
  refine ⟨hsettings, hcongr _ _ (by simp [config]) (fun _ => Iff.rfl), hfewer,
    ⟨(haccepts _).mpr ⟨.inr ⟨" Error", by decide, by decide⟩, by decide⟩, hwarning⟩, ?_, ?_⟩
  · rw [← Bool.not_eq_true, (accepts_by_entries _ fewer hfewer).1]
    intro h
    exact h.2 ⟨" max-line-length\t", by decide, by decide⟩
  · rw [← Bool.not_eq_true]
    intro haccepted
    have hother := hmono _ fewer (by simp [config]) hfewer _ haccepted
    exact absurd (hwarning.symm.trans hother) (by decide)

end Config

end LintRepair
