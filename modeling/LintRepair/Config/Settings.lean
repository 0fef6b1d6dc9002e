import LintRepair.Config.Basic
import LintRepair.Failure
import LintRepair.Method
import LintRepair.Path.Basic

/-!
# Settings

A configuration is checked as a whole: every bad entry is an issue, and only a configuration without
issues yields settings. Issues come in the order of the entries in the file: the method, severities
and rules in the order of their lists, and last the output, of which at most one thing is bad.
-/

namespace LintRepair

/-- Where repaired files go. -/
inductive Output where
  /-- In the place of the sources. -/
  | direct
  /-- Into a directory, under their own relative paths. -/
  | copy (dir : Path)
deriving DecidableEq, Repr

/-- What a run does. No severities mean all of them. -/
structure Settings where
  method : Method := .inPlace
  severities : List Severity := []
  skipRules : List String := []
  output : Output := .direct
deriving DecidableEq, Repr

def Settings.accepts (settings : Settings) (failure : Failure) : Bool :=
  (settings.severities.isEmpty || settings.severities.contains failure.severity) &&
    !settings.skipRules.contains failure.rule

/-- The severities of a list, least first and each once. -/
def Severity.sorted (severities : List Severity) : List Severity :=
  Severity.all.filter severities.contains

/-- Texts in ascending order, each once. -/
def sortedTexts (texts : List String) : List String :=
  texts.eraseDups.mergeSort fun a b => decide (a ≤ b)

/-- One bad entry of a configuration. -/
inductive Issue where
  | unknownMethod (value : String)
  | unknownSeverity (value : String)
  /-- The rule at this place of its list is blank. -/
  | blankRule (index : Nat)
  /-- A directory is given, but files are not copied. -/
  | unusedDir
  /-- Files are to be copied into a directory without a name. -/
  | emptyDir
  | unknownMode (value : String)
deriving DecidableEq, Repr

/-- The wording of an issue about a value that is none of those expected. -/
def unknownValueMessage (value key expected : String) : String :=
  "unknown value `" ++ value ++ "` for `" ++ key ++ "` (expected " ++ expected ++ ")"

def Issue.message : Issue → String
  | .unknownMethod value => unknownValueMessage value "fix.method" "in-place, diff, none"
  | .unknownSeverity value => unknownValueMessage value "fix.severities" "info, warning, error"
  | .blankRule index => "empty entry at `fix.skip_rules[" ++ toString index ++ "]`"
  | .unusedDir => "output.dir is only used with output.mode = \"copy\""
  | .emptyDir => "missing field `output.dir`"
  | .unknownMode value => unknownValueMessage value "output.mode" "direct, copy"

namespace Config

def defaultDir : String := "fixes"

/-- The method, or what is wrong with it. -/
def resolveMethod (config : Config) : Except Issue Method :=
  match config.method with
  | none => .ok .inPlace
  | some value =>
      match Method.parse? value with
      | some method => .ok method
      | none => .error (.unknownMethod value)

/-- The output, or what is wrong with it. -/
def resolveOutput (config : Config) : Except Issue Output :=
  match config.mode.map Text.trim with
  | none | some "direct" => if config.dir.isSome then .error .unusedDir else .ok .direct
  | some "copy" =>
      let dir := config.dir.getD defaultDir
      if dir.isEmpty then .error .emptyDir else .ok (.copy (Path.ofText dir))
  | some mode => .error (.unknownMode mode)

/-- The issue of a result, if it is one. -/
def issueOf {α : Type} : Except Issue α → List Issue
  | .ok _ => []
  | .error issue => [issue]

def issues (config : Config) : List Issue :=
  issueOf config.resolveMethod ++
    config.severities.flatMap (fun value =>
      if (Severity.parse? value).isSome then [] else [.unknownSeverity value]) ++
    config.skipRules.zipIdx.flatMap (fun (rule, index) =>
      if (Text.trim rule).isEmpty then [.blankRule index] else []) ++
    issueOf config.resolveOutput

/-- The settings that a configuration means, or all that is wrong with it. -/
def settings (config : Config) : Except (List Issue) Settings :=
  match config.resolveMethod, config.resolveOutput with
  | .ok method, .ok output =>
      if config.issues.isEmpty then
        .ok {
          method, output
          severities := Severity.sorted (config.severities.filterMap Severity.parse?)
          skipRules := sortedTexts (config.skipRules.map Text.trim) }
      else .error config.issues
  | _, _ => .error config.issues

end Config

end LintRepair
