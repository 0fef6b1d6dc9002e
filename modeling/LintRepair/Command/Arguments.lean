import LintRepair.Method
import LintRepair.Path.Basic
import LintRepair.Severity

/-!
# Arguments of the command line

The command line names a command, `apply` or `check`, and behind it options and reports in any
order. An option has a long name behind two hyphens, and some have a letter behind one hyphen. A
value follows its option as the next argument or, in the same argument, behind an equals sign;
behind a letter the sign may be left out. Letters of options without values may share a hyphen with
further letters. Two hyphens alone end the options.

Arguments are looked at from left to right: the first thing wrong makes the whole line wrong, unless
the version or the help has been asked for before.
-/

namespace LintRepair.Command

/-- Whether repaired files replace the sources or are copied. -/
inductive OutputChoice where
  | direct | copy
deriving DecidableEq, Repr

inductive Format where
  | text | json
deriving DecidableEq, Repr

inductive Flag where
  | verbose | help | version | method | output | fixDir | severity | skipRule | config | root
  | format
deriving DecidableEq, Repr

namespace Flag

/-- The name behind two hyphens. -/
def long : Flag → String
  | .verbose => "verbose"
  | .help => "help"
  | .version => "version"
  | .method => "method"
  | .output => "output"
  | .fixDir => "fix-dir"
  | .severity => "severity"
  | .skipRule => "skip-rule"
  | .config => "config"
  | .root => "root"
  | .format => "format"

/-- The letter behind one hyphen. -/
def letter? : Flag → Option Char
  | .verbose => some 'v'
  | .help => some 'h'
  | .version => some 'V'
  | .method => some 'm'
  | .output => some 'o'
  | .severity => some 's'
  | .config => some 'c'
  | .root => some 'r'
  | .format => some 'f'
  | .fixDir | .skipRule => none

def takesValue : Flag → Bool
  | .verbose | .help | .version => false
  | _ => true

/-- The options before the command. -/
def general : List Flag := [.verbose, .help, .version]

def forCheck : List Flag := [.verbose, .help, .config, .root]

def forApply : List Flag :=
  [.verbose, .help, .config, .root, .method, .output, .fixDir, .severity, .skipRule, .format]

end Flag

/-! ## Items -/

/-- What an argument, or a letter of one, stands for. -/
inductive Item where
  | flag (flag : Flag)
  | option (flag : Flag) (value : String)
  | report (text : String)
  /-- Something that no option is, or an option without its value, or with one too many. -/
  | wrong
deriving DecidableEq, Repr

/-- Whether an argument can be the value of the option before it. -/
def isValue (argument : String) : Bool :=
  argument = "-" || argument.toList.head? != some '-'

/-- The item of an option whose value would be the next argument, and whether it is. -/
def valueFrom (flag : Flag) (next : Option String) : Item × Bool :=
  match next with
  | some value => if isValue value then (.option flag value, true) else (.wrong, false)
  | none => (.wrong, false)

/-- The items of the letters behind one hyphen, and whether the next argument belongs to them. -/
def readLetters (allowed : List Flag) (next : Option String) : List Char → List Item × Bool
  | [] => ([], false)
  | letter :: rest =>
      match allowed.find? fun flag => flag.letter? == some letter with
      | none => ([.wrong], false)
      | some flag =>
          if flag.takesValue then
            match rest with
            | [] =>
                let (item, used) := valueFrom flag next
                ([item], used)
            | '=' :: value => ([.option flag (String.ofList value)], false)
            | value => ([.option flag (String.ofList value)], false)
          else
            let (items, used) := readLetters allowed next rest
            (.flag flag :: items, used)

/-- The item of an option by its long name, and whether the next argument belongs to it. -/
def readLong (allowed : List Flag) (next : Option String) (chars : List Char) : Item × Bool :=
  let name := String.ofList (chars.takeWhile (· ≠ '='))
  match allowed.find? (fun flag => flag.long == name), chars.dropWhile (· ≠ '=') with
  | none, _ => (.wrong, false)
  | some flag, [] => if flag.takesValue then valueFrom flag next else (.flag flag, false)
  | some flag, _ :: value =>
      (if flag.takesValue then .option flag (String.ofList value) else .wrong, false)

/-- The items of one argument, and whether the next argument belongs to them. -/
def readArgument (allowed : List Flag) (argument : String) (next : Option String) :
    List Item × Bool :=
  match argument.toList with
  | '-' :: '-' :: name =>
      let (item, used) := readLong allowed next name
      ([item], used)
  | '-' :: letter :: letters => readLetters allowed next (letter :: letters)
  | _ => ([.report argument], false)

def readArguments (allowed : List Flag) : List String → List Item
  | [] => []
  | [argument] => if argument = "--" then [] else (readArgument allowed argument none).1
  | argument :: next :: rest =>
      if argument = "--" then (next :: rest).map .report
      else
        match readArgument allowed argument (some next) with
        | (items, true) => items ++ readArguments allowed rest
        | (items, false) => items ++ readArguments allowed (next :: rest)

/-! ## Requests -/

structure Options where
  verbose : Bool := false
  reports : List Path := []
  config : Option Path := none
  root : Option Path := none
  method : Option Method := none
  output : Option OutputChoice := none
  fixDir : Option Path := none
  severities : List Severity := []
  skipRules : List String := []
  format : Option Format := none
deriving DecidableEq, Repr

/-- Why there is no command to be run. -/
inductive Stop where
  | usage | help | version
deriving DecidableEq, Repr

inductive Verb where
  | apply | check
deriving DecidableEq, Repr

/-- What a command line asks for. -/
structure Request where
  verb : Verb
  options : Options
deriving DecidableEq, Repr

/-- Gives an option its value, unless it has one. -/
def once {α : Type} (old : Option α) (value : Option α) : Except Stop (Option α) :=
  match old, value with
  | none, some value => .ok (some value)
  | _, _ => .error .usage

/-- A path; it must not be empty. -/
def pathValue? (text : String) : Option Path :=
  if text.isEmpty then none else some (Path.ofText text)

def OutputChoice.ofName? : String → Option OutputChoice
  | "direct" => some .direct
  | "copy" => some .copy
  | _ => none

def Format.ofName? : String → Option Format
  | "text" => some .text
  | "json" => some .json
  | _ => none

/-- The severities of a text, between commas. -/
def severityValues? (text : String) : Option (List Severity) :=
  (text.splitOn ",").mapM Severity.parse?

namespace Options

/-- Puts one more item into the options. -/
def add (options : Options) : Item → Except Stop Options
  | .wrong => .error .usage
  | .flag .help => .error .help
  | .flag .version => .error .version
  | .flag _ => if options.verbose then .error .usage else .ok { options with verbose := true }
  | .report text =>
      match pathValue? text with
      | some path => .ok { options with reports := options.reports ++ [path] }
      | none => .error .usage
  | .option flag value =>
      match flag with
      | .method => do return { options with method := ← once options.method (Method.parse? value) }
      | .output => do
          return { options with output := ← once options.output (OutputChoice.ofName? value) }
      | .fixDir => do return { options with fixDir := ← once options.fixDir (pathValue? value) }
      | .config => do return { options with config := ← once options.config (pathValue? value) }
      | .root => do return { options with root := ← once options.root (pathValue? value) }
      | .format => do return { options with format := ← once options.format (Format.ofName? value) }
      | .severity =>
          match severityValues? value with
          | some severities =>
              .ok { options with severities := options.severities ++ severities }
          | none => .error .usage
      | .skipRule => .ok { options with skipRules := options.skipRules ++ [value] }
      | .verbose | .help | .version => .error .usage

/-- The options that items make, at least one report among them. -/
def ofItems (items : List Item) : Except Stop Options := do
  let options ← items.foldlM add {}
  if options.reports.isEmpty then .error .usage else return options

end Options

/-- The request of a command with its arguments. -/
def Request.ofArguments (verb : Verb) (arguments : List String) : Except Stop Request := do
  let allowed := match verb with
    | .apply => Flag.forApply
    | .check => Flag.forCheck
  let options ← Options.ofItems (readArguments allowed arguments)
  return ⟨verb, options⟩

def isHelpTopic : List String → Bool
  | [] => true
  | [topic] => topic ∈ ["apply", "check", "help"]
  | _ => false

/-- The request of a command line. `general` holds the options that stand before the command. -/
def Request.parse (general : Options) : List String → Except Stop Request
  | [] => .error .usage
  | argument :: rest =>
      let ofVerb (verb : Verb) : Except Stop Request := do
        let request ← Request.ofArguments verb rest
        let verbose := general.verbose || request.options.verbose
        return { request with options := { request.options with verbose } }
      if argument = "apply" then ofVerb .apply
      else if argument = "check" then ofVerb .check
      else if argument = "help" then .error (if isHelpTopic rest then .help else .usage)
      else if argument = "--" || isValue argument then .error .usage
      else do
        let general ← (readArgument Flag.general argument none).1.foldlM Options.add general
        Request.parse general rest

end LintRepair.Command
