import LintRepair.Failure
import LintRepair.Json.Read
import LintRepair.Report.Record

/-!
# Reading reports

A report is a JSON array of failures. Replacements, fixes and failures are records; their layouts
below fix the order of the fields and which of them have defaults. A fix within a failure may leave
out its rule, and then has that of the failure. Once a failure has been read to its end, its span is
checked, and then its fixes in their order.
-/

namespace LintRepair.Report

open Json (Value)

/-- The answer to a value that is not what is wanted in its place. -/
def unwanted {α : Type} (value : Value) (wanted : String) : Except ReadError α :=
  match value.describe with
  | .ok found => .error (.wrongType found wanted)
  | .error fault => .error (.fault fault)

def readOffset : Value → Except ReadError UInt64
  | .number (.natural n) =>
      if n ≤ maxOffset then .ok n.toUInt64 else .error (.outOfRange n "usize")
  | .number (.negative n) => .error (.outOfRange (-n) "usize")
  | value => unwanted value "usize"

def readPriority : Value → Except ReadError Int32
  | .number (.natural n) =>
      if n < 0x80000000 then .ok (Int32.ofNat n) else .error (.outOfRange n "i32")
  | .number (.negative n) =>
      if n ≤ 0x80000000 then .ok (Int32.ofInt (-n)) else .error (.outOfRange (-n) "i32")
  | value => unwanted value "i32"

def readString : Value → Except ReadError String
  | .text value => .ok value
  | value => unwanted value "a string"

/-- Reads a string, or nothing if there is `null` in its place. -/
def readString? : Value → Except ReadError (Option String)
  | .null => .ok none
  | value => (readString value).map some

/-- Reads an array, each item with `read`. -/
def readList {α : Type} (read : Value → Except ReadError α) :
    Value → Except ReadError (List α)
  | .array items fault => do
      let list ← items.mapM read
      Layout.checkEnd fault
      return list
  | value => unwanted value "a sequence"

/-- The severity with this name. -/
def readSeverityName (name : String) : Except ReadError Severity :=
  match Severity.ofName? name with
  | some severity => .ok severity
  | none => .error (.unknownSeverity name)

/-- Reads a severity: its name, or an object whose only member has the name as key and `null` as
value. -/
def readSeverity : Value → Except ReadError Severity
  | .text name => readSeverityName name
  | .object ((key, value) :: rest) fault => do
      let severity ←
        match key with
        | .text name => readSeverityName name
        | .unpaired => .error (.fault .malformed)
        | .broken read _ => .error (.fault read)
        | .other (.ok found) => .error (.wrongType found "variant identifier")
        | .other (.error fault) => .error (.fault fault)
      match value with
      | .null => pure ()
      | value => unwanted value "unit"
      if rest.isEmpty then Layout.checkEnd fault else .error (.fault .malformed)
      return severity
  | .object [] (some fault) => .error (.fault fault)
  | .broken read _ => .error (.fault read)
  | _ => .error (.fault .malformed)

/-! ## Replacements and fixes -/

def replacementLayout : Layout Replacement where
  name := "Replacement"
  fields := [
    ⟨"start", true, fun value r => do return { r with start := ← readOffset value }⟩,
    ⟨"length", true, fun value r => do return { r with length := ← readOffset value }⟩,
    ⟨"text", true, fun value r => do return { r with text := ← readString value }⟩,
    ⟨"priority", false, fun value r => do return { r with priority := ← readPriority value }⟩]

def readReplacement (value : Value) : Except ReadError Replacement :=
  replacementLayout.read ⟨0, 0, "", 0⟩ value

/-- A fix as it is written down: its rule may be left out, and its replacements may overlap. -/
structure FixDraft where
  rule : Option String := none
  description : String := ""
  replacements : List Replacement := []
deriving DecidableEq, Repr

def descriptionField : Field FixDraft :=
  ⟨"description", false, fun value draft => do
    return { draft with description := ← readString value }⟩

def replacementsField : Field FixDraft :=
  ⟨"replacements", false, fun value draft => do
    return { draft with replacements := ← readList readReplacement value }⟩

/-- The fields of a fix that stands alone. -/
def fixLayout : Layout FixDraft where
  name := "RawFix"
  fields := [
    ⟨"rule", true, fun value draft => do
      let rule ← readString value
      return { draft with rule := some rule }⟩,
    descriptionField, replacementsField]

/-- The fields of a fix within a failure. -/
def failureFixLayout : Layout FixDraft where
  name := "RawFailureFix"
  fields := [
    ⟨"rule", false, fun value draft => do return { draft with rule := ← readString? value }⟩,
    descriptionField, replacementsField]

/-- The fix that a draft means; `rule` is that of the failure around it. -/
def FixDraft.toFix (draft : FixDraft) (rule : String) : Except ReadError Fix :=
  (Fix.make (draft.rule.getD rule) draft.description draft.replacements).mapError .fix

def readFix (value : Value) : Except ReadError Fix := do
  let draft ← fixLayout.read {} value
  draft.toFix ""

/-! ## Failures -/

/-- A failure as it is written down: neither its span nor its fixes have been checked. -/
structure FailureDraft where
  file : String := ""
  rule : String := ""
  start : UInt64 := 0
  stop : UInt64 := 0
  message : String := ""
  severity : Severity := .error
  fixes : List FixDraft := []
deriving DecidableEq, Repr

def failureLayout : Layout FailureDraft where
  name := "RawFailure"
  fields := [
    ⟨"file", true, fun value draft => do return { draft with file := ← readString value }⟩,
    ⟨"rule", true, fun value draft => do return { draft with rule := ← readString value }⟩,
    ⟨"start", true, fun value draft => do return { draft with start := ← readOffset value }⟩,
    ⟨"end", true, fun value draft => do return { draft with stop := ← readOffset value }⟩,
    ⟨"message", false, fun value draft => do return { draft with message := ← readString value }⟩,
    ⟨"severity", false, fun value draft => do
      return { draft with severity := ← readSeverity value }⟩,
    ⟨"fixes", false, fun value draft => do
      return { draft with fixes := ← readList (failureFixLayout.read {}) value }⟩]

/-- The failure that a draft means. -/
def FailureDraft.toFailure (draft : FailureDraft) : Except ReadError Failure :=
  if hordered : draft.start ≤ draft.stop then do
    let fixes ← draft.fixes.mapM fun fix => fix.toFix draft.rule
    return ⟨draft.file, draft.rule, draft.start, draft.stop, draft.message, draft.severity, fixes,
      hordered⟩
  else .error (.inverted draft.rule draft.start draft.stop)

def readFailure (value : Value) : Except ReadError Failure := do
  let draft ← failureLayout.read {} value
  draft.toFailure

/-! ## Texts -/

/-- Reads a text that holds one value and nothing else. -/
def ofText {α : Type} (read : Value → Except ReadError α) (text : String) :
    Except ReadError α := do
  let document := Json.Document.ofText text
  let result ← read document.value
  if document.followed then .error (.fault .malformed) else return result

def parse (text : String) : Except ReadError (List Failure) :=
  ofText (readList readFailure) text

end LintRepair.Report
