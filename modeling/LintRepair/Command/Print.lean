import LintRepair.Command.Check
import LintRepair.Command.Style
import LintRepair.Log.Filter
import LintRepair.Report.Encode

/-!
# What a run prints

Results go to standard output, either as text for people or as one JSON page; what goes wrong goes
to standard error, between the lines of the log.
-/

namespace LintRepair.Command

def line (text : String) : String :=
  text ++ "\n"

/-- The lines of a text without their ends. A carriage return before a line break belongs to it, and
no empty line follows the last line break. -/
def linesOf (text : String) : List String :=
  let pieces := text.splitOn "\n"
  let pieces := if pieces.getLast? = some "" then pieces.dropLast else pieces
  let broken := text.toList.getLast? = some '\n'
  let strip (piece : String) : String :=
    match piece.toList.reverse with
    | '\r' :: rest => String.ofList rest.reverse
    | _ => piece
  if broken then pieces.map strip
  else pieces.dropLast.map strip ++ pieces.getLast?.toList

/-! ## Results -/

def repairJson (repair : Repair) : Json.Value :=
  .record [("file_name", .text repair.file), ("content", .text repair.content),
    ("message", .text repair.message), ("applied", .list (repair.applied.map Fix.toJson)),
    ("remaining", .list (repair.remaining.map Fix.toJson))]

/-- A line of a preview: added lines green, removed ones red, headings of fixes bold. -/
def previewLine (colored : Bool) (text : String) : String :=
  match text.toList.head? with
  | some '+' => line (Style.green.paint colored text)
  | some '-' => line (Style.red.paint colored text)
  | some '#' => line (Style.bold.paint colored text)
  | _ => line text

def repairText (colored : Bool) (method : Method) (repair : Repair) : String :=
  match method with
  | .inPlace =>
      let marker :=
        if repair.remaining.isEmpty then Style.green.paint colored "✓"
        else Style.yellow.paint colored "⊙"
      line (marker ++ " " ++ repair.file ++ ": " ++ repair.message)
  | .diff => String.join ((linesOf repair.message).map (previewLine colored))
  | .off => ""

/-- The numbers of a run for people; only repairs in place are counted. -/
def totalsText (colored : Bool) (method : Method) (totals : Totals) : String :=
  if method = .inPlace then
    line "" ++ line (Style.bold.paint colored "Summary:") ++
      line ("  " ++ Style.green.paint colored (toString totals.applied) ++ " fixes applied") ++
      line ("  " ++ Style.yellow.paint colored (toString totals.remaining) ++
        " fixes remaining") ++
      line ("  " ++ toString totals.written ++ " files written") ++
      (if totals.failed = 0 then ""
      else line ("  " ++ Style.red.paint colored (toString totals.failed) ++ " files failed"))
  else ""

/-- The results of a run as a JSON page. -/
def resultsPage (outcomes : List FileOutcome) : String :=
  line (Json.Value.list ((outcomes.filterMap FileOutcome.repair?).map repairJson)).page

/-! ## Failures -/

/-- A line about something that went wrong with a file. -/
def troubleLine (colored : Bool) (text : String) : String :=
  line (Style.red.paint colored "✗" ++ " " ++ text)

def unreadableText (file : String) (error : IoError) : String :=
  file ++ ": Cannot read - " ++ error.message

/-- What went wrong with a file, if anything did. -/
def FileOutcome.trouble? : FileOutcome → Option String
  | .unreadable file error => some (unreadableText file error)
  | .refused error => some error.message
  | .unwritten file error => some (file ++ ": " ++ error.message)
  | .repaired .. => none

/-- What would go wrong with a file, if anything would. -/
def FileForecast.trouble? : FileForecast → Option String
  | .unreadable file error => some (unreadableText file error)
  | .refused error => some error.message
  | .repairable .. => none

/-! ## Trials -/

/-- What a trial says about a file. -/
def forecastText (colored : Bool) : FileForecast → String
  | .repairable file fixable applied remaining =>
      line (Style.green.paint colored "✓" ++ " " ++ file ++ ": " ++ toString fixable ++
        " fixable, " ++ toString applied ++ " would apply, " ++ toString remaining ++
        " would conflict")
  | _ => ""

/-- What a trial says before it looks at any file. -/
def checkHeading (colored : Bool) (root : Path) (method : Method) (failures files : Nat) : String :=
  line (Style.bold.paint colored "Fix Check Report") ++ line ("Root: " ++ root.text) ++
    line ("Method: " ++ method.name) ++
    line ("Failures: " ++ toString failures ++ " (" ++ toString files ++ " eligible files)") ++
    line ""

/-- The lines of events that a filter admits. -/
def logText (filter : Log.Filter) (events : List Log.Event) : String :=
  String.join ((events.filter filter.admits).map fun event => line event.line)

end LintRepair.Command
