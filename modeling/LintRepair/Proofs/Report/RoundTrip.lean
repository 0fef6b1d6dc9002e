import LintRepair.Proofs.FirstError
import LintRepair.Proofs.Json.Compact
import LintRepair.Proofs.Report.Records
import LintRepair.Report.Decode
import LintRepair.Report.Encode
import LintRepair.Report.Load

/-!
# Reports are read back

What is written of a failure is a record with some of its fields, and it is read through a draft
that checks spans and overlaps again.  A field is left out only if its value is the default that
reading puts there, and the others stand in the order of the layout, so a record is read as the
array of its values would be (`Layout.read_record`).  The checks pass because failures and fixes
carry the proofs that they do (`toFailure_failureDraftOf`).  For the texts there remains that all
that is written is there in full (`isWhole_failure`).
-/

namespace LintRepair.Report

open Json (Value Key)

/-! ## Leaves -/

theorem readOffset_natural (n : UInt64) : readOffset (.natural n.toNat) = .ok n := by
  have hle : n.toNat ≤ maxOffset := Nat.le_of_lt_succ n.toNat_lt
  have hread : readOffset (.natural n.toNat) = .ok n.toNat.toUInt64 := if_pos hle
  rw [hread]
  simp

theorem readPriority_integer (p : Int32) : readPriority (.integer p.toInt) = .ok p := by
  have hlow := p.le_toInt
  have hhigh := p.toInt_lt
  unfold Value.integer
  rcases Int.lt_or_le p.toInt 0 with hneg | hnonneg
  · have hread : readPriority (.number (.negative p.toInt.natAbs)) =
        .ok (Int32.ofInt (-p.toInt.natAbs)) := if_pos (by omega)
    rw [if_pos hneg, hread, Int.ofNat_natAbs_of_nonpos (Int.le_of_lt hneg), Int.neg_neg,
      Int32.ofInt_toInt]
  · have hread : readPriority (.number (.natural p.toInt.toNat)) =
        .ok (Int32.ofNat p.toInt.toNat) := if_pos (by omega)
    rw [if_neg (by omega), hread, ← Int32.ofInt_eq_ofNat, Int.toNat_of_nonneg hnonneg,
      Int32.ofInt_toInt]

theorem readSeverity_name (severity : Severity) :
    readSeverity (.text severity.name) = .ok severity := by
  cases severity <;> rfl

theorem readList_list {α β : Type} {read : Value → Except ReadError β} {written : α → Value}
    {items : List α} (meaning : α → β)
    (hread : ∀ item ∈ items, read (written item) = .ok (meaning item)) :
    readList read (.list (items.map written)) = .ok (items.map meaning) := by
  simp only [readList, Value.list, FirstError.mapM_map_eq_ok hread]
  rfl

/-! ## Records -/

namespace Layout

variable {α : Type} {layout : Layout α} {fields : List (Field α)} {values : List Value}
  {seen : List String} {record result : α}

/-- The members of a record that has some of the fields. -/
def members (fields : List (Field α)) (values : List Value) : List (String × Value) :=
  (fields.map Field.name).zip values

theorem readItems_cons {field : Field α} {value : Value} {next : α}
    (hfirst : field.read value record = .ok next) :
    readItems (field :: fields) (value :: values) record = readItems fields values next := by
  rw [readItems, hfirst, FirstError.bind_ok]

/-- Members that stand in the order of the fields are read as an array is. -/
theorem readMembers_members (hfields : ∀ field ∈ fields, layout.field? field.name = some field)
    (hnodup : (fields.map Field.name).Nodup) (hseen : ∀ field ∈ fields, field.name ∉ seen)
    (hread : readItems fields values record = .ok ([], result))
    (hlength : fields.length = values.length) :
    layout.readMembers
        ((members fields values).map fun (name, value) => (Key.text name, value)) seen record =
      .ok ((fields.map Field.name).reverse ++ seen, result) := by
  induction fields generalizing values seen record with
  | nil =>
    cases values with
    | nil =>
      obtain ⟨-, rfl⟩ := Prod.mk.inj (Except.ok.inj hread)
      rfl
    | cons value values => cases hlength
  | cons field rest ih =>
    cases values with
    | nil => cases hlength
    | cons value values =>
      rw [List.forall_mem_cons] at hfields hseen
      rw [List.map_cons, List.nodup_cons] at hnodup
      cases hfirst : field.read value record with
      | error error =>
        rw [readItems, hfirst, FirstError.bind_error] at hread
        cases hread
      | ok next =>
        rw [readItems_cons hfirst] at hread
        -- Names do not repeat, so no later member counts as one seen before.
        have hnew : ∀ other ∈ rest, other.name ∉ field.name :: seen := by
          intro other hother hmem
          rcases List.mem_cons.mp hmem with heq | hmem
          · exact hnodup.1 (heq ▸ List.mem_map_of_mem hother)
          · exact hseen.2 other hother hmem
        have hrest := ih hfields.2 hnodup.2 hnew hread (Nat.succ.inj hlength)
        unfold members at hrest ⊢
        rw [List.map_cons, List.zip_cons_cons, List.map_cons, readMembers]
        simp only [hfields.1, if_neg hseen.1, hfirst, FirstError.bind_ok]
        rw [hrest, List.reverse_cons, List.append_assoc]
        rfl

/-- A record with its fields in their order is read as an array of them is, as long as no required
field is left out. -/
theorem read_record (fields : List (Field α)) (values : List Value) {defaults : α}
    (hfields : fields.Sublist layout.fields)
    (hnodup : (layout.fields.map Field.name).Nodup)
    (hrequired : ∀ field ∈ layout.fields, field.required → field.name ∈ fields.map Field.name)
    (hlength : fields.length = values.length)
    (hread : readItems fields values defaults = .ok ([], result)) :
    layout.read defaults (.record (members fields values)) = .ok result := by
  have hfound : ∀ field ∈ fields, layout.field? field.name = some field := fun field hfield =>
    field?_eq_some hnodup (hfields.subset hfield)
  have hmembers := readMembers_members hfound (hnodup.sublist (hfields.map Field.name))
    (fun _ _ => List.not_mem_nil) hread hlength
  have hmissing : layout.missing? ((fields.map Field.name).reverse ++ []) = none := by
    refine List.find?_eq_none.mpr fun field hfield => ?_
    -- A field that is left out has a default.
    cases hneeded : field.required with
    | false => simp
    | true =>
      have := hrequired field hfield hneeded
      simpa using this
  unfold read Value.record
  simp only [hmembers, FirstError.bind_ok, hmissing]
  rfl

end Layout

/-! ## Replacements and fixes -/

theorem readReplacement_toJson (r : Replacement) : readReplacement r.toJson = .ok r := by
  unfold readReplacement Replacement.toJson
  by_cases hpriority : r.priority = 0
  · -- A priority of zero is not written; it is what reading starts from.
    rw [if_pos hpriority]
    refine Layout.read_record (replacementLayout.fields.take 3)
      [.natural r.start.toNat, .natural r.length.toNat, .text r.text]
      (List.take_sublist ..) (by decide) (by decide) rfl ?_
    simp only [replacementLayout, List.take_succ_cons, List.take_zero, Layout.readItems,
      readOffset_natural, readString, FirstError.bind_ok, ← hpriority]
    rfl
  · rw [if_neg hpriority]
    refine Layout.read_record replacementLayout.fields
      [.natural r.start.toNat, .natural r.length.toNat, .text r.text, .integer r.priority.toInt]
      (List.Sublist.refl _) (by decide) (by decide) rfl ?_
    simp only [replacementLayout, Layout.readItems, readOffset_natural, readString,
      readPriority_integer, FirstError.bind_ok]
    rfl

/-- What is written down of a fix. -/
def draftOf (fix : Fix) : FixDraft where
  rule := some fix.rule
  description := fix.description
  replacements := fix.replacements

theorem read_replacementsField (draft : FixDraft) (replacements : List Replacement) :
    replacementsField.read (.list (replacements.map Replacement.toJson)) draft =
      .ok { draft with replacements } := by
  have hlist : readList readReplacement (.list (replacements.map Replacement.toJson)) =
      .ok replacements := by
    rw [readList_list id fun r _ => readReplacement_toJson r, List.map_id]
  unfold replacementsField
  simp only [hlist, FirstError.bind_ok]
  rfl

/-- A fix that stands alone and one within a failure differ in the field of the rule only. -/
theorem readDraft_toJson {layout : Layout FixDraft} {ruleField : Field FixDraft} (fix : Fix)
    (hfields : layout.fields = [ruleField, descriptionField, replacementsField])
    (hname : ruleField.name = "rule")
    (hrule : ruleField.read (.text fix.rule) {} = .ok { rule := some fix.rule }) :
    layout.read {} fix.toJson = .ok (draftOf fix) := by
  have hnodup : (layout.fields.map Field.name).Nodup := by
    simp only [hfields, List.map_cons, hname]
    decide
  unfold Fix.toJson
  -- An empty description is left out and read back as the default.
  by_cases hdescription : fix.description.isEmpty
  · have hread : Layout.readItems [ruleField, replacementsField]
        [.text fix.rule, .list (fix.replacements.map Replacement.toJson)] {} =
          .ok ([], draftOf fix) := by
      rw [Layout.readItems_cons hrule, Layout.readItems_cons (read_replacementsField ..), draftOf,
        String.isEmpty_iff.mp hdescription]
      rfl
    have hrecord := Layout.read_record [ruleField, replacementsField]
      [.text fix.rule, .list (fix.replacements.map Replacement.toJson)] (by simp [hfields]) hnodup
      (by simp [hfields, descriptionField]) rfl hread
    rw [if_pos hdescription]
    simp only [Layout.members, List.map_cons, hname] at hrecord
    exact hrecord
  · have hread : Layout.readItems [ruleField, descriptionField, replacementsField]
        [.text fix.rule, .text fix.description,
          .list (fix.replacements.map Replacement.toJson)] {} = .ok ([], draftOf fix) := by
      rw [Layout.readItems_cons hrule]
      exact Layout.readItems_cons (read_replacementsField ..)
    have hrecord := Layout.read_record [ruleField, descriptionField, replacementsField]
      [.text fix.rule, .text fix.description, .list (fix.replacements.map Replacement.toJson)]
      (by simp [hfields]) hnodup (by simp [hfields]) rfl hread
    rw [if_neg hdescription]
    simp only [Layout.members, List.map_cons, hname] at hrecord
    exact hrecord

/-- The draft of a fix means the fix: its replacements do not overlap. -/
theorem toFix_draftOf (fix : Fix) (rule : String) : (draftOf fix).toFix rule = .ok fix := by
  have hmake : Fix.make fix.rule fix.description fix.replacements = .ok fix := by
    unfold Fix.make
    split
    next hfound =>
      rw [firstOverlap_eq_none_iff.mpr fix.disjoint] at hfound
      cases hfound
    next => rfl
  unfold FixDraft.toFix draftOf
  simp only [Option.getD_some, hmake, FirstError.mapError_ok]

theorem readFix_toJson (fix : Fix) : readFix fix.toJson = .ok fix := by
  unfold readFix
  rw [readDraft_toJson fix rfl rfl rfl, FirstError.bind_ok, toFix_draftOf]

/-! ## Failures -/

/-- What is written down of a failure. -/
def failureDraftOf (failure : Failure) : FailureDraft where
  file := failure.file
  rule := failure.rule
  start := failure.start
  stop := failure.stop
  message := failure.message
  severity := failure.severity
  fixes := failure.fixes.map draftOf

theorem readFailureDraft_toJson (failure : Failure) :
    failureLayout.read {} failure.toJson = .ok (failureDraftOf failure) := by
  have hfixes : readList (failureFixLayout.read {}) (.list (failure.fixes.map Fix.toJson)) =
      .ok (failure.fixes.map draftOf) :=
    readList_list draftOf fun fix _ => readDraft_toJson fix rfl rfl rfl
  unfold Failure.toJson
  -- So is an empty list of fixes.
  by_cases hempty : failure.fixes.isEmpty
  · rw [if_pos hempty]
    refine Layout.read_record (failureLayout.fields.take 6)
      [.text failure.file, .text failure.rule, .natural failure.start.toNat,
        .natural failure.stop.toNat, .text failure.message, .text failure.severity.name]
      (List.take_sublist ..) (by decide) (by decide) rfl ?_
    simp only [failureLayout, List.take_succ_cons, List.take_zero, Layout.readItems,
      readOffset_natural, readString, readSeverity_name, FirstError.bind_ok, failureDraftOf,
      List.isEmpty_iff.mp hempty]
    rfl
  · rw [if_neg hempty]
    refine Layout.read_record failureLayout.fields
      [.text failure.file, .text failure.rule, .natural failure.start.toNat,
        .natural failure.stop.toNat, .text failure.message, .text failure.severity.name,
        .list (failure.fixes.map Fix.toJson)]
      (List.Sublist.refl _) (by decide) (by decide) rfl ?_
    simp only [failureLayout, Layout.readItems, readOffset_natural, readString, readSeverity_name,
      hfixes, FirstError.bind_ok]
    rfl

theorem toFailure_failureDraftOf (failure : Failure) :
    (failureDraftOf failure).toFailure = .ok failure := by
  have hfixes : (failure.fixes.map draftOf).mapM (fun fix => fix.toFix failure.rule) =
      .ok (failure.fixes.map id) :=
    FirstError.mapM_map_eq_ok fun fix _ => toFix_draftOf fix failure.rule
  rw [List.map_id] at hfixes
  unfold FailureDraft.toFailure failureDraftOf
  simp only [dif_pos failure.ordered, hfixes, FirstError.bind_ok]
  rfl

theorem readFailure_toJson (failure : Failure) : readFailure failure.toJson = .ok failure := by
  unfold readFailure
  rw [readFailureDraft_toJson, FirstError.bind_ok, toFailure_failureDraftOf]

/-! ## Texts -/

theorem isWhole_natural (n : UInt64) : (Value.natural n.toNat).IsWhole :=
  n.toNat_lt

theorem isWhole_integer (p : Int32) : (Value.integer p.toInt).IsWhole := by
  have hlow := p.le_toInt
  have hhigh := p.toInt_lt
  unfold Value.integer
  split
  · exact ⟨by omega, by omega⟩
  · exact Nat.lt_of_lt_of_le (by omega) (by decide : 2147483648 ≤ UInt64.size)

theorem isWhole_replacement (r : Replacement) : r.toJson.IsWhole := by
  unfold Replacement.toJson
  rw [Value.isWhole_record]
  split
  · simp [isWhole_natural, Value.IsWhole]
  · simp [isWhole_natural, isWhole_integer, Value.IsWhole]

theorem isWhole_fix (fix : Fix) : fix.toJson.IsWhole := by
  have hlist : (Value.list (fix.replacements.map Replacement.toJson)).IsWhole := by
    rw [Value.isWhole_list, List.forall_mem_map]
    exact fun r _ => isWhole_replacement r
  unfold Fix.toJson
  rw [Value.isWhole_record]
  split
  · simp [hlist, Value.IsWhole]
  · simp [hlist, Value.IsWhole]

theorem isWhole_failure (failure : Failure) : failure.toJson.IsWhole := by
  have hlist : (Value.list (failure.fixes.map Fix.toJson)).IsWhole := by
    rw [Value.isWhole_list, List.forall_mem_map]
    exact fun fix _ => isWhole_fix fix
  unfold Failure.toJson
  rw [Value.isWhole_record]
  split
  · simp [isWhole_natural, Value.IsWhole]
  · simp [isWhole_natural, hlist, Value.IsWhole]

theorem ofText_compact {α : Type} {read : Value → Except ReadError α} {value : Value} {result : α}
    (hvalue : value.IsWhole) (hread : read value = .ok result) :
    ofText read value.compact = .ok result := by
  unfold ofText
  rw [Json.ofText_compact hvalue]
  simp only [hread, FirstError.bind_ok]
  rfl

theorem parse_render (failures : List Failure) : parse (render failures) = .ok failures := by
  have hwhole : (Value.list (failures.map Failure.toJson)).IsWhole := by
    rw [Value.isWhole_list, List.forall_mem_map]
    exact fun failure _ => isWhole_failure failure
  refine ofText_compact hwhole ?_
  rw [readList_list id fun failure _ => readFailure_toJson failure, List.map_id]

/-- A report on standard input is all that is loaded if no file has the name that stands for it. -/
theorem load_standardInput {tree : Tree} {error : IoError}
    (hlocate : tree.locate standardInput = .error error) (failures : List Failure) :
    load tree (.ok (render failures)) [standardInput] = .ok failures := by
  have hdiscover : discover tree standardInput = .ok [standardInput] := by
    unfold discover
    rw [hlocate]
  have hone : loadOne tree (.ok (render failures)) standardInput = .ok (failures, .ok "") := by
    have hsame : decide (standardInput.SameAs standardInput) = true := by decide
    unfold loadOne
    simp only [hsame, if_pos, FirstError.mapError_ok, FirstError.bind_ok, parse_render]
    rfl
  unfold load loadAll
  simp only [hdiscover, FirstError.bind_ok, loadFiles, hone, loadAll]
  simp [pure, Except.pure, Except.map]

/-- What is written is read back: every list of failures from its report, every fix and every
replacement from its own text. -/
theorem parse_render_eq_self :
    (∀ failures : List Failure, parse (render failures) = .ok failures) ∧
    (∀ fix : Fix, ofText readFix fix.toJson.compact = .ok fix) ∧
    (∀ r : Replacement, ofText readReplacement r.toJson.compact = .ok r) := by
  refine ⟨parse_render, fun fix => ?_, fun r => ?_⟩
  · exact ofText_compact (isWhole_fix fix) (readFix_toJson fix)
  · exact ofText_compact (isWhole_replacement r) (readReplacement_toJson r)

end LintRepair.Report
