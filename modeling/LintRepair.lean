import LintRepair.Main
import LintRepair.Proofs.Patch.Check
import LintRepair.Proofs.Text.Encoding
import LintRepair.Proofs.Patch.ReadingOrder
import LintRepair.Proofs.Patch.Rebuild
import LintRepair.Proofs.Patch.Size
import LintRepair.Proofs.Patch.ExpectedSize
import LintRepair.Proofs.Repair.InPlace
import LintRepair.Proofs.Report.Group
import LintRepair.Proofs.Json.Compact
import LintRepair.Proofs.Report.RoundTrip
import LintRepair.Proofs.Path.Lexical
import LintRepair.Proofs.Tree.Walk
import LintRepair.Proofs.Tree.Write
import LintRepair.Proofs.Report.Naming
import LintRepair.Proofs.Persist.Target
import LintRepair.Proofs.Command.Groups
import LintRepair.Proofs.Command.Turns
import LintRepair.Proofs.Command.Direct
import LintRepair.Proofs.Command.Copies
import LintRepair.Proofs.Command.Accounts
import LintRepair.Proofs.Command.Forecast
import LintRepair.Proofs.Repair.Preview
import LintRepair.Proofs.Patch.Rearranged
import LintRepair.Proofs.Patch.Resume
import LintRepair.Proofs.Selection.Related
import LintRepair.Proofs.Selection.Rounds
import LintRepair.Proofs.Diff.Render
import LintRepair.Proofs.Text.Lines
import LintRepair.Proofs.Text.FirstBytes
import LintRepair.Proofs.Text.LineTable
import LintRepair.Proofs.Text.Position
import LintRepair.Proofs.Diff.Script
import LintRepair.Proofs.Report.Records
import LintRepair.Proofs.Report.Drafts
import LintRepair.Proofs.Report.Acceptance
import LintRepair.Proofs.Report.Entries
import LintRepair.Proofs.Report.Spelling
import LintRepair.Proofs.Tree.Replace
import LintRepair.Proofs.Path.Ancestors
import LintRepair.Proofs.Persist.AllOrNothing
import LintRepair.Proofs.Text.Blank
import LintRepair.Proofs.Config.Spelling
import LintRepair.Proofs.Config.Issues
import LintRepair.Proofs.Config.Acceptance
import LintRepair.Proofs.Config.Nearest
import LintRepair.Proofs.Tree.Listing
import LintRepair.Proofs.Path.FileName
import LintRepair.Proofs.Report.Loading
import LintRepair.Proofs.Text.Ascending
