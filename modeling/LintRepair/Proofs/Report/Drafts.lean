import LintRepair.Proofs.Report.Records
import LintRepair.Proofs.Report.RoundTrip

/-!
# Well-typed reports

What a value has to be to stand for a replacement, a fix or a failure, said without reading it: the
parts that it shows (`Layout.Shows`) are numbers, texts and lists that stand for the fields, and a
part that is not there stands for the default of its field.  Reading accepts these values and no
others, and gives what they stand for:

* `readReplacement_eq_ok_iff` for replacements;
* `readFixDraft_eq_ok_iff` for fixes that stand alone, `readFailureFixDraft_eq_ok_iff` for fixes
  within failures, which differ in the part for the rule only;
* `readFailureDraft_eq_ok_iff` for failures.

All four are `Layout.read_eq_ok_iff` with the fields of the layout put in one by one.  Drafts are
what is read so far: whether spans are in order and replacements apart is not looked at yet.
-/

namespace LintRepair.Report

open Json (Value Key)
open Layout (Shows OrDefault)

/-! ## Leaves -/

theorem unwanted_ne_ok {α : Type} {value : Value} {wanted : String} {result : α} :
    unwanted value wanted ≠ .ok result := by
  unfold unwanted
  split <;> nofun

theorem readOffset_eq_ok_iff {value : Value} {n : UInt64} :
    readOffset value = .ok n ↔ value = .natural n.toNat := by
  constructor
  · intro hread
    unfold readOffset at hread
    split at hread
    next m =>
      split at hread
      next hle =>
        have hsmall : m < 2 ^ 64 := Nat.lt_succ_of_le hle
        rw [← Except.ok.inj hread, Nat.toUInt64_eq, UInt64.toNat_ofNat_of_lt' hsmall]
        rfl
      next => cases hread
    next => cases hread
    next => exact absurd hread unwanted_ne_ok
  · rintro rfl
    exact readOffset_natural n

theorem readString_eq_ok_iff {value : Value} {text : String} :
    readString value = .ok text ↔ value = .text text := by
  constructor
  · intro hread
    unfold readString at hread
    split at hread
    next found => rw [Except.ok.inj hread]
    next => exact absurd hread unwanted_ne_ok
  · rintro rfl
    rfl

/-- A value stands for a text, or for none if it is `null`. -/
inductive IsTextOrNull : Value → Option String → Prop where
  | null : IsTextOrNull .null none
  | text (text : String) : IsTextOrNull (.text text) (some text)

theorem readString?_eq_ok_iff {value : Value} {text : Option String} :
    readString? value = .ok text ↔ IsTextOrNull value text := by
  constructor
  · intro hread
    unfold readString? at hread
    split at hread
    next =>
      obtain rfl := Except.ok.inj hread
      exact .null
    next =>
      obtain ⟨found, hfound, htext⟩ := FirstError.map_eq_ok_iff.mp hread
      rw [readString_eq_ok_iff.mp hfound, ← htext]
      exact .text found
  · rintro (_ | _) <;> rfl

/-- A value stands for an integer. -/
inductive IsInteger : Value → Int → Prop where
  | natural (n : Nat) : IsInteger (.natural n) n
  | negative (n : Nat) : IsInteger (.number (.negative n)) (-n)

theorem readPriority_eq_ok_iff {value : Value} {p : Int32} :
    readPriority value = .ok p ↔ IsInteger value p.toInt := by
  constructor
  · intro hread
    unfold readPriority at hread
    split at hread
    next n =>
      split at hread
      next hlt =>
        -- The bound on the number makes the word stand for it.
        rw [← Except.ok.inj hread, ← Int32.ofInt_eq_ofNat,
          Int32.toInt_ofInt_of_le (by omega) (by omega)]
        exact .natural n
      next => cases hread
    next n =>
      split at hread
      next hle =>
        rw [← Except.ok.inj hread, Int32.toInt_ofInt_of_le (by omega) (by omega)]
        exact .negative n
      next => cases hread
    next => exact absurd hread unwanted_ne_ok
  · intro h
    have hlow := p.le_toInt
    have hhigh := p.toInt_lt
    generalize hz : p.toInt = z at h hlow hhigh
    cases h with
    | natural n =>
      have hread : readPriority (.number (.natural n)) = .ok (Int32.ofNat n) := if_pos (by omega)
      rw [Value.natural, hread, ← Int32.ofInt_eq_ofNat, ← hz, Int32.ofInt_toInt]
    | negative n =>
      have hread : readPriority (.number (.negative n)) = .ok (Int32.ofInt (-n)) :=
        if_pos (by omega)
      rw [hread, ← hz, Int32.ofInt_toInt]

/-- A value stands for a severity: its name, or an object that has the name as its only key. -/
def IsSeverity (value : Value) (severity : Severity) : Prop :=
  value = .text severity.name ∨ value = .record [(severity.name, .null)]

theorem readSeverityName_eq_ok_iff {name : String} {severity : Severity} :
    readSeverityName name = .ok severity ↔ name = severity.name := by
  constructor
  · intro hread
    unfold readSeverityName at hread
    split at hread
    next found hfound =>
      obtain rfl := Except.ok.inj hread
      have hname := List.find?_some hfound
      exact (beq_iff_eq.mp hname).symm
    next => cases hread
  · rintro rfl
    exact readSeverity_name severity

theorem readSeverity_eq_ok_iff {value : Value} {severity : Severity} :
    readSeverity value = .ok severity ↔ IsSeverity value severity := by
  constructor
  · intro hread
    unfold readSeverity at hread
    split at hread
    next name =>
      exact .inl (congrArg Value.text (readSeverityName_eq_ok_iff.mp hread))
    next key value rest fault =>
      refine .inr ?_
      -- One key that is a name, `null` behind it, nothing after that, and no fault.
      dsimp only at hread
      split at hread
      next name =>
        obtain ⟨found, hname, hread⟩ := FirstError.bind_eq_ok_iff.mp hread
        split at hread
        next =>
          split at hread
          next hlast =>
            obtain ⟨_, hfault, hfound⟩ := FirstError.bind_eq_ok_iff.mp hread
            obtain rfl := Except.ok.inj hfound
            rw [readSeverityName_eq_ok_iff.mp hname, Layout.checkEnd_eq_ok_iff.mp hfault,
              List.isEmpty_iff.mp hlast]
            rfl
          next => cases hread
        next =>
          obtain ⟨_, hunit, -⟩ := FirstError.bind_eq_ok_iff.mp hread
          exact absurd hunit unwanted_ne_ok
      all_goals cases hread
    all_goals cases hread
  · rintro (rfl | rfl)
    · exact readSeverity_name severity
    · cases severity <;> rfl

/-- A value is an array whose items stand for those of a list, one by one. -/
def IsListOf {α : Type} (IsItem : Value → α → Prop) (value : Value) (list : List α) : Prop :=
  ∃ items, value = .list items ∧ List.Forall₂ IsItem items list

theorem readList_eq_ok_iff {α : Type} {read : Value → Except ReadError α} {value : Value}
    {list : List α} :
    readList read value = .ok list ↔ IsListOf (fun item x => read item = .ok x) value list := by
  constructor
  · intro hread
    unfold readList at hread
    split at hread
    next items fault =>
      obtain ⟨found, hitems, hend⟩ := FirstError.bind_eq_ok_iff.mp hread
      obtain ⟨_, hfault, hlist⟩ := FirstError.bind_eq_ok_iff.mp hend
      obtain rfl := Layout.checkEnd_eq_ok_iff.mp hfault
      obtain rfl := Except.ok.inj hlist
      exact ⟨items, rfl, FirstError.mapM_eq_ok_iff.mp hitems⟩
    next => exact absurd hread unwanted_ne_ok
  · rintro ⟨items, rfl, hitems⟩
    simp only [readList, Value.list, FirstError.mapM_eq_ok_iff.mpr hitems]
    rfl

/-! ## Replacements -/

/-- The parts that make up a replacement. -/
structure IsReplacementOf (part : String → Option Value) (r : Replacement) : Prop where
  start : part "start" = some (.natural r.start.toNat)
  length : part "length" = some (.natural r.length.toNat)
  text : part "text" = some (.text r.text)
  priority : OrDefault (part "priority") (IsInteger · r.priority.toInt) (r.priority = 0)

/-- A value stands for a replacement. -/
def IsReplacement (value : Value) (r : Replacement) : Prop :=
  ∃ part, Shows ["start", "length", "text", "priority"] part value ∧ IsReplacementOf part r

theorem replacementLayout_commutes : replacementLayout.fields.Pairwise Field.Commutes := by
  simp only [replacementLayout, List.pairwise_cons, List.forall_mem_cons, List.not_mem_nil,
    IsEmpty.forall_iff, implies_true, List.Pairwise.nil, and_true]
  and_intros <;> exact Layout.commutes_of_put fun _ _ _ => rfl

theorem readReplacement_eq_ok_iff {value : Value} {r : Replacement} :
    readReplacement value = .ok r ↔ IsReplacement value r := by
  unfold readReplacement IsReplacement
  rw [Layout.read_eq_ok_iff (by decide) replacementLayout_commutes]
  refine exists_congr fun part => and_congr_right fun _ => ?_
  simp only [replacementLayout, List.foldlM_cons, List.foldlM_nil,
    Layout.readPart_required_bind_iff fun start (r : Replacement) => { r with start },
    Layout.readPart_required_bind_iff fun length (r : Replacement) => { r with length },
    Layout.readPart_required_bind_iff fun text (r : Replacement) => { r with text },
    Layout.readPart_optional_bind_iff Replacement.priority
      (fun priority (r : Replacement) => { r with priority }) fun _ => rfl,
    readOffset_eq_ok_iff, readString_eq_ok_iff, readPriority_eq_ok_iff, exists_eq_right]
  constructor
  · rintro ⟨start, hstart, length, hlength, text, htext, priority, hpriority, hr⟩
    obtain rfl := Except.ok.inj hr
    exact ⟨hstart, hlength, htext, hpriority⟩
  · rintro ⟨hstart, hlength, htext, hpriority⟩
    exact ⟨_, hstart, _, hlength, _, htext, _, hpriority, rfl⟩

/-! ## Fixes -/

def fixNames : List String :=
  ["rule", "description", "replacements"]

theorem nodup_fixNames : fixNames.Nodup := by
  decide

/-- The parts that make up a fix, besides the rule. -/
structure IsFixBodyOf (part : String → Option Value) (draft : FixDraft) : Prop where
  description : OrDefault (part "description") (· = .text draft.description)
    (draft.description = "")
  replacements : OrDefault (part "replacements") (IsListOf IsReplacement · draft.replacements)
    (draft.replacements = [])

/-- A value stands for a fix alone; the rule is a text. -/
def IsFix (value : Value) (draft : FixDraft) : Prop :=
  ∃ part, Shows fixNames part value ∧
    (∃ rule, part "rule" = some (.text rule) ∧ draft.rule = some rule) ∧ IsFixBodyOf part draft

/-- A value stands for a fix within a failure; the rule may be left out, or be `null`. -/
def IsFailureFix (value : Value) (draft : FixDraft) : Prop :=
  ∃ part, Shows fixNames part value ∧
    OrDefault (part "rule") (IsTextOrNull · draft.rule) (draft.rule = none) ∧
    IsFixBodyOf part draft

theorem fixLayout_commutes : fixLayout.fields.Pairwise Field.Commutes := by
  simp only [fixLayout, List.pairwise_cons, List.forall_mem_cons, List.not_mem_nil,
    IsEmpty.forall_iff, implies_true, List.Pairwise.nil, and_true]
  and_intros <;> exact Layout.commutes_of_put fun _ _ _ => rfl

theorem failureFixLayout_commutes : failureFixLayout.fields.Pairwise Field.Commutes := by
  simp only [failureFixLayout, List.pairwise_cons, List.forall_mem_cons, List.not_mem_nil,
    IsEmpty.forall_iff, implies_true, List.Pairwise.nil, and_true]
  and_intros <;> exact Layout.commutes_of_put fun _ _ _ => rfl

theorem readFixDraft_eq_ok_iff {value : Value} {draft : FixDraft} :
    fixLayout.read {} value = .ok draft ↔ IsFix value draft := by
  unfold IsFix
  rw [Layout.read_eq_ok_iff (by decide) fixLayout_commutes]
  refine exists_congr fun part => and_congr_right fun _ => ?_
  simp only [fixLayout, descriptionField, replacementsField, List.foldlM_cons, List.foldlM_nil,
    Layout.readPart_required_bind_iff fun rule (draft : FixDraft) =>
      { draft with rule := some rule },
    Layout.readPart_optional_bind_iff FixDraft.description
      (fun description (draft : FixDraft) => { draft with description }) fun _ => rfl,
    Layout.readPart_optional_bind_iff FixDraft.replacements
      (fun replacements (draft : FixDraft) => { draft with replacements }) fun _ => rfl,
    readString_eq_ok_iff, readList_eq_ok_iff, readReplacement_eq_ok_iff, exists_eq_right]
  constructor
  · rintro ⟨rule, hrule, description, hdescription, replacements, hreplacements, hdraft⟩
    obtain rfl := Except.ok.inj hdraft
    exact ⟨⟨rule, hrule, rfl⟩, hdescription, hreplacements⟩
  · rintro ⟨⟨rule, hrule, hdraft⟩, hdescription, hreplacements⟩
    refine ⟨_, hrule, _, hdescription, _, hreplacements, ?_⟩
    rw [← hdraft]
    rfl

theorem readFailureFixDraft_eq_ok_iff {value : Value} {draft : FixDraft} :
    failureFixLayout.read {} value = .ok draft ↔ IsFailureFix value draft := by
  unfold IsFailureFix
  rw [Layout.read_eq_ok_iff (by decide) failureFixLayout_commutes]
  refine exists_congr fun part => and_congr_right fun _ => ?_
  simp only [failureFixLayout, descriptionField, replacementsField, List.foldlM_cons,
    List.foldlM_nil,
    Layout.readPart_optional_bind_iff FixDraft.rule
      (fun rule (draft : FixDraft) => { draft with rule }) fun _ => rfl,
    Layout.readPart_optional_bind_iff FixDraft.description
      (fun description (draft : FixDraft) => { draft with description }) fun _ => rfl,
    Layout.readPart_optional_bind_iff FixDraft.replacements
      (fun replacements (draft : FixDraft) => { draft with replacements }) fun _ => rfl,
    readString?_eq_ok_iff, readString_eq_ok_iff, readList_eq_ok_iff, readReplacement_eq_ok_iff]
  constructor
  · rintro ⟨rule, hrule, description, hdescription, replacements, hreplacements, hdraft⟩
    obtain rfl := Except.ok.inj hdraft
    exact ⟨hrule, hdescription, hreplacements⟩
  · rintro ⟨hrule, hdescription, hreplacements⟩
    exact ⟨_, hrule, _, hdescription, _, hreplacements, rfl⟩

/-! ## Failures -/

def failureNames : List String :=
  ["file", "rule", "start", "end", "message", "severity", "fixes"]

theorem nodup_failureNames : failureNames.Nodup := by
  decide

/-- The parts that make up a failure. -/
structure IsFailureOf (part : String → Option Value) (draft : FailureDraft) : Prop where
  file : part "file" = some (.text draft.file)
  rule : part "rule" = some (.text draft.rule)
  start : part "start" = some (.natural draft.start.toNat)
  stop : part "end" = some (.natural draft.stop.toNat)
  message : OrDefault (part "message") (· = .text draft.message) (draft.message = "")
  severity : OrDefault (part "severity") (IsSeverity · draft.severity) (draft.severity = .error)
  fixes : OrDefault (part "fixes") (IsListOf IsFailureFix · draft.fixes) (draft.fixes = [])

/-- A value stands for a failure, as far as it can be told without the checks. -/
def IsFailure (value : Value) (draft : FailureDraft) : Prop :=
  ∃ part, Shows failureNames part value ∧
    IsFailureOf part draft

theorem failureLayout_commutes : failureLayout.fields.Pairwise Field.Commutes := by
  simp only [failureLayout, List.pairwise_cons, List.forall_mem_cons, List.not_mem_nil,
    IsEmpty.forall_iff, implies_true, List.Pairwise.nil, and_true]
  and_intros <;> exact Layout.commutes_of_put fun _ _ _ => rfl

theorem readFailureDraft_eq_ok_iff {value : Value} {draft : FailureDraft} :
    failureLayout.read {} value = .ok draft ↔ IsFailure value draft := by
  unfold IsFailure
  rw [Layout.read_eq_ok_iff (by decide) failureLayout_commutes]
  refine exists_congr fun part => and_congr_right fun _ => ?_
  simp only [failureLayout, List.foldlM_cons, List.foldlM_nil,
    Layout.readPart_required_bind_iff fun file (draft : FailureDraft) => { draft with file },
    Layout.readPart_required_bind_iff fun rule (draft : FailureDraft) => { draft with rule },
    Layout.readPart_required_bind_iff fun start (draft : FailureDraft) => { draft with start },
    Layout.readPart_required_bind_iff fun stop (draft : FailureDraft) => { draft with stop },
    Layout.readPart_optional_bind_iff FailureDraft.message
      (fun message (draft : FailureDraft) => { draft with message }) fun _ => rfl,
    Layout.readPart_optional_bind_iff FailureDraft.severity
      (fun severity (draft : FailureDraft) => { draft with severity }) fun _ => rfl,
    Layout.readPart_optional_bind_iff FailureDraft.fixes
      (fun fixes (draft : FailureDraft) => { draft with fixes }) fun _ => rfl,
    readOffset_eq_ok_iff, readString_eq_ok_iff, readSeverity_eq_ok_iff, readList_eq_ok_iff,
    readFailureFixDraft_eq_ok_iff, exists_eq_right]
  -- Field by field, the draft that is built up is the draft that is given.
  constructor
  · rintro ⟨file, hfile, rule, hrule, start, hstart, stop, hstop, message, hmessage, severity,
      hseverity, fixes, hfixes, hdraft⟩
    obtain rfl := Except.ok.inj hdraft
    exact ⟨hfile, hrule, hstart, hstop, hmessage, hseverity, hfixes⟩
  · rintro ⟨hfile, hrule, hstart, hstop, hmessage, hseverity, hfixes⟩
    exact ⟨_, hfile, _, hrule, _, hstart, _, hstop, _, hmessage, _, hseverity, _, hfixes, rfl⟩

end LintRepair.Report
