import LintRepair.Failure
import LintRepair.Json.Print

/-!
# Writing reports

Replacements, fixes and failures as JSON objects, with their fields in the order of their layouts. A
priority of zero, an empty description and an empty list of fixes are left out.
-/

namespace LintRepair

open Json (Value)

def Replacement.toJson (r : Replacement) : Value :=
  .record ([("start", .natural r.start.toNat), ("length", .natural r.length.toNat),
      ("text", .text r.text)] ++
    if r.priority = 0 then [] else [("priority", .integer r.priority.toInt)])

def Fix.toJson (fix : Fix) : Value :=
  .record ([("rule", .text fix.rule)] ++
    (if fix.description.isEmpty then [] else [("description", .text fix.description)]) ++
    [("replacements", .list (fix.replacements.map Replacement.toJson))])

def Failure.toJson (failure : Failure) : Value :=
  .record ([("file", .text failure.file), ("rule", .text failure.rule),
      ("start", .natural failure.start.toNat), ("end", .natural failure.stop.toNat),
      ("message", .text failure.message), ("severity", .text failure.severity.name)] ++
    if failure.fixes.isEmpty then [] else [("fixes", .list (failure.fixes.map Fix.toJson))])

def Report.render (failures : List Failure) : String :=
  (Value.list (failures.map Failure.toJson)).compact

end LintRepair
