import LintRepair.Command.Arguments
import LintRepair.Command.Print
import LintRepair.Config.Load
import LintRepair.Log.Filter
import LintRepair.Report.Load

/-!
# Running a command line

`run` says all that a command line does: what it prints, with which status it ends, and what it
leaves of the file tree. The status is 0 if all went well, 1 if anything went wrong, and 2 for a
command line that asks for nothing that could be done.
-/

namespace LintRepair.Command

/-- What a run is given beside its arguments and the file tree. -/
structure Environment where
  input : Report.Input := .ok ""
  colored : Bool := false
  /-- The log filter that was asked for. -/
  logFilter : Option String := none

structure Outcome where
  status : Nat
  stdout : String
  stderr : String
  tree : Tree

/-- What ends a run before it looks at any file. -/
inductive RunError where
  | noRoot (path : Path)
  | config (error : ConfigError)
  | invalid (issues : List Issue)
  | report (error : Report.LoadError)

def RunError.message : RunError → String
  | .noRoot path => "Root directory not found: " ++ path.text
  | .config error => error.message
  | .invalid issues => String.intercalate "\n" (issues.map Issue.message)
  | .report error => error.message

/-! ## Settings of a run -/

/-- The output of a run: options of the command line win over the configuration, and a directory
means copies unless direct output is asked for. -/
def resolveOutput (configured : Output) (choice : Option OutputChoice) (dir : Option Path) :
    Output :=
  match choice, dir with
  | some .direct, _ => .direct
  | _, some dir => .copy dir
  | some .copy, none =>
      match configured with
      | .copy dir => .copy dir
      | .direct => .copy (Path.ofText Config.defaultDir)
  | none, none => configured

def Options.settings (options : Options) (configured : Settings) : Settings where
  method := options.method.getD configured.method
  severities :=
    if options.severities.isEmpty then configured.severities
    else Severity.sorted options.severities
  skipRules := sortedTexts (configured.skipRules ++ options.skipRules)
  output := resolveOutput configured.output options.output options.fixDir

def Options.rootPath (options : Options) (tree : Tree) : Except RunError Path :=
  match options.root with
  | some root => (tree.canonical root).mapError fun _ => .noRoot root
  | none => .ok tree.workingDirectory.path

/-- What a run works with. -/
structure Setup where
  root : Path
  settings : Settings
  source : ConfigSource

/-- Finds the root directory and the configuration of a run. -/
def Options.setup (options : Options) (tree : Tree) : Except RunError Setup := do
  let root ← options.rootPath tree
  let (config, source) ← (Config.load tree options.config root Config.parse?).mapError .config
  let settings ← config.settings.mapError .invalid
  return ⟨root, options.settings settings, source⟩

/-- The filter of the log: the one asked for, if it can be understood, or all events up to a
level. -/
def Environment.filter (environment : Environment) (verbose : Bool) : Log.Filter :=
  let fallback := Log.Filter.upTo (if verbose then .debug else .info)
  ((environment.logFilter.bind Log.Filter.parse?).getD fallback)

/-! ## Commands -/

/-- What goes to standard error about one file: its log, and then what went wrong. -/
def fileStderr (environment : Environment) (filter : Log.Filter) (events : List Log.Event)
    (trouble : Option String) : String :=
  logText filter events ++ (trouble.map (troubleLine environment.colored)).getD ""

/-- Runs the command `apply` on the failures of all reports. -/
def runApply (environment : Environment) (filter : Log.Filter) (tree : Tree) (setup : Setup)
    (format : Format) (failures : List Failure) : Outcome :=
  let method := setup.settings.method
  let groups := acceptedGroups setup.settings setup.root tree failures
  let runs := applyGroups setup.settings setup.root tree groups
  let outcomes := runs.map FileRun.outcome
  let totals := Totals.ofOutcomes outcomes
  let stdout :=
    match format with
    | .json => resultsPage outcomes
    | .text =>
        String.join ((outcomes.filterMap FileOutcome.repair?).map
          (repairText environment.colored method)) ++
          totalsText environment.colored method totals
  { status := if totals.failed = 0 then 0 else 1
    stdout
    stderr :=
      logText filter [.filesPlanned groups.length method.name] ++
        String.join (runs.map fun run =>
          fileStderr environment filter run.events run.outcome.trouble?)
    tree := finalTree tree runs }

/-- Runs the command `check` on the failures of all reports. -/
def runCheck (environment : Environment) (filter : Log.Filter) (tree : Tree) (setup : Setup)
    (failures : List Failure) : Outcome :=
  let groups := acceptedGroups setup.settings setup.root tree failures
  let trials := groups.map (checkGroup setup.root tree)
  { status := if trials.any fun trial => trial.forecast.failed then 1 else 0
    stdout :=
      checkHeading environment.colored setup.root setup.settings.method failures.length
        groups.length ++
        String.join (trials.map fun trial => forecastText environment.colored trial.forecast)
    stderr :=
      String.join (trials.map fun trial =>
        fileStderr environment filter trial.events trial.forecast.trouble?)
    tree }

def errorText (error : RunError) : String :=
  line ("Error: " ++ error.message)

/-- A run that ends before it changes anything. -/
def Outcome.failed (tree : Tree) (error : RunError) : Outcome :=
  ⟨1, "", errorText error, tree⟩

/-- Loads all reports and runs a command on their failures. -/
def runReports (environment : Environment) (filter : Log.Filter) (tree : Tree) (setup : Setup)
    (request : Request) : Outcome :=
  match Report.load tree environment.input request.options.reports with
  | .error error => .failed tree (.report error)
  | .ok failures =>
      match request.verb with
      | .apply =>
          runApply environment filter tree setup (request.options.format.getD .text) failures
      | .check => runCheck environment filter tree setup failures

def Request.run (request : Request) (environment : Environment) (tree : Tree) : Outcome :=
  let filter := environment.filter request.options.verbose
  match request.options.setup tree with
  | .error error => .failed tree error
  | .ok setup =>
      let outcome := runReports environment filter tree setup request
      { outcome with stderr := logText filter [.configLoaded setup.source.text] ++ outcome.stderr }

def usage : String :=
  line "Apply linter fixes without conflicting edits" ++ line "" ++
    line "Usage: lintfix [OPTIONS] <COMMAND>" ++ line "" ++ line "Commands:" ++
    line "  apply  Apply the fixes suggested in failure reports" ++
    line "  check  Validate reports and config, and show what would be fixed"

def version : String := "lintfix 0.1.0"

def run (arguments : List String) (environment : Environment) (tree : Tree) : Outcome :=
  match Request.parse {} arguments with
  | .ok request => request.run environment tree
  | .error .version => ⟨0, line version, "", tree⟩
  | .error .help => ⟨0, usage, "", tree⟩
  | .error .usage => ⟨2, "", usage, tree⟩

end LintRepair.Command
