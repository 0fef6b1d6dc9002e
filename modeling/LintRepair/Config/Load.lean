import LintRepair.Config.Settings
import LintRepair.Tree.Walk

/-!
# Loading configurations

A run uses the configuration file that it is told to use, or else the file of the nearest directory
that has one, from the directory where it starts upwards. Only when there is none do the defaults
apply: a file that is there but cannot be read, or has something wrong in it, is an error and is
never passed over.
-/

namespace LintRepair

/-- Where a configuration comes from. -/
inductive ConfigSource where
  /-- From a file that was named. -/
  | named (path : Path)
  /-- From the nearest file. -/
  | discovered (path : Path)
  /-- From no file. -/
  | builtIn
deriving DecidableEq, Repr

namespace ConfigSource

def path? : ConfigSource → Option Path
  | .named path | .discovered path => some path
  | .builtIn => none

/-- How messages call a source. -/
def text : ConfigSource → String
  | .named path => path.text
  | .discovered path => path.text ++ " (discovered)"
  | .builtIn => "built-in defaults"

end ConfigSource

/-- Why a configuration was refused. The source is missing if the text was not read from a file. -/
inductive ConfigError where
  | notFound (path : Path)
  | unreadable (path : Path) (error : IoError)
  | malformed (source : Option ConfigSource)
  | invalid (source : Option ConfigSource) (issues : List Issue)
deriving DecidableEq, Repr

namespace ConfigError

def path? : ConfigError → Option Path
  | .notFound path | .unreadable path _ => some path
  | .malformed source | .invalid source _ => source.bind ConfigSource.path?

/-- A source in parentheses, behind a blank. -/
def inParentheses : Option ConfigSource → String
  | some source => " (" ++ source.text ++ ")"
  | none => ""

def message : ConfigError → String
  | .notFound path => "config file " ++ path.text ++ " does not exist"
  | .unreadable path error => "failed to read " ++ path.text ++ ": " ++ error.message
  | .malformed source => "lintfix.toml is not valid TOML" ++ inParentheses source ++ ":"
  | .invalid source issues =>
      "invalid lintfix.toml" ++ inParentheses source ++ ":\n" ++
        String.intercalate "\n" (issues.map Issue.message)

end ConfigError

namespace Config

/-- The configuration in a text, if the whole of it can be settled. `read` is the reader of the
language that configurations are written in. -/
def ofText (source : Option ConfigSource) (text : String)
    (read : String → Option Config := parse?) : Except ConfigError Config :=
  match read text with
  | none => .error (.malformed source)
  | some config =>
      match config.settings with
      | .ok _ => .ok config
      | .error issues => .error (.invalid source issues)

/-- The configuration of a source. -/
def ofSource (tree : Tree) (source : ConfigSource) (read : String → Option Config := parse?) :
    Except ConfigError Config :=
  match source.path? with
  | none => .ok {}
  | some path =>
      if tree.pathExists path then
        match tree.readText path with
        | .ok text => ofText (some source) text read
        | .error error => .error (.unreadable path error)
      else .error (.notFound path)

def fileName : Path := Path.ofText "lintfix.toml"

/-- The nearest configuration file from a directory upwards. -/
def discover? (tree : Tree) (start : Path) : Option Path :=
  (start.ancestors.map fun directory => directory.join fileName).find? tree.isFile

/-- Where the configuration of a run comes from. -/
def source (tree : Tree) (named : Option Path) (start : Path) : ConfigSource :=
  match named with
  | some path => .named path
  | none => (discover? tree start).elim .builtIn .discovered

/-- What a run uses, and where it comes from. -/
def load (tree : Tree) (named : Option Path) (start : Path)
    (read : String → Option Config := parse?) : Except ConfigError (Config × ConfigSource) := do
  let source := source tree named start
  let config ← ofSource tree source read
  return (config, source)

end Config

end LintRepair
