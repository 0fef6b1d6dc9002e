import LintRepair.Text.Quoted

/-!
# Log events

What a run reports about itself while it works. Each event has a level and a topic, by which a
`Log.Filter` lets it through or not, and one line of text.
-/

namespace LintRepair.Log

/-- How fine an event is; coarser levels come first. -/
inductive Level where
  | error | warn | info | debug | trace
deriving DecidableEq, Repr

/-- Coarser levels have smaller ranks. -/
def Level.rank : Level → Nat
  | .error => 1
  | .warn => 2
  | .info => 3
  | .debug => 4
  | .trace => 5

def Level.name : Level → String
  | .error => "ERROR"
  | .warn => "WARN"
  | .info => "INFO"
  | .debug => "DEBUG"
  | .trace => "TRACE"

inductive Event where
  /-- The settings were read from `origin`. -/
  | configLoaded (origin : String)
  /-- So many files are about to be handled by a method. -/
  | filesPlanned (files : Nat) (method : String)
  /-- A fix of `rule` was selected. -/
  | fixSelected (rule : String)
  /-- A fix of `rule` conflicts with a selected fix of `blocker`. -/
  | fixDeferred (rule blocker : String)
  | replacementApplied (start stop : Nat)
  /-- So many fixes of a file were applied, and so many deferred. -/
  | fixesApplied (file : String) (applied remaining : Nat)
  /-- New content was written to a path. -/
  | contentWritten (path : String)
  /-- The result for a file was put down at a path. -/
  | resultPersisted (path : String)
deriving DecidableEq, Repr

/-- Replacements are finer than all other events. -/
def Event.level : Event → Level
  | .replacementApplied .. => .trace
  | _ => .debug

/-- The topic by which a filter can name an event. -/
def Event.topic : Event → String
  | .configLoaded .. | .filesPlanned .. | .resultPersisted .. => "lintfix"
  | .fixSelected .. | .fixDeferred .. => "lintfix::select"
  | .replacementApplied .. => "lintfix::patch"
  | .fixesApplied .. => "lintfix::fixer::in_place"
  | .contentWritten .. => "lintfix::persist"

/-- What an event says, without its level: a sentence and its values, names and rules in quotes. -/
def Event.text : Event → String
  | .configLoaded origin => "Loaded config source=" ++ origin
  | .filesPlanned files method =>
      "Fixing files files=" ++ toString files ++ " method=" ++ method
  | .fixSelected rule => "Selected fix rule=" ++ Text.quoted rule
  | .fixDeferred rule blocker =>
      "Deferring conflicting fix rule=" ++ Text.quoted rule ++ " blocked_by=" ++
        Text.quoted blocker
  | .replacementApplied start stop =>
      "Applying replacement start=" ++ toString start ++ " end=" ++ toString stop
  | .fixesApplied file applied remaining =>
      "Applied fixes file=" ++ Text.quoted file ++ " applied=" ++ toString applied ++
        " remaining=" ++ toString remaining
  | .contentWritten path => "Wrote fixed content path=" ++ path
  | .resultPersisted path => "Persisted path=" ++ path

def Event.line (event : Event) : String :=
  event.level.name ++ " " ++ event.text

end LintRepair.Log
