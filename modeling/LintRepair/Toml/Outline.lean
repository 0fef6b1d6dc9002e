import LintRepair.Toml.Value

/-!
# Tables under construction

A document fills its tables line by line: headers open them, dotted keys reach into them, and each
may create the tables on its way. A table may be opened only once, and not every way of writing may
add to it, so an outline keeps for every table how it came about.

* A header opens a table that is not there, or one that only headers further in have created.
* A dotted key adds to tables that dotted keys have created, and passes through those that headers
  further in have created.
* A header in double brackets adds one more table to an array of such tables; what follows goes into
  the last one.
-/

namespace LintRepair.Toml

/-- How a table came about. -/
inductive Origin where
  /-- Opened by a header of its own, or the document itself. -/
  | opened
  /-- Created by a header on its way further in. -/
  | passed
  /-- Created by a dotted key. -/
  | dotted
deriving DecidableEq, Repr

/-- What a key stands for in a table under construction. -/
inductive Node where
  | value (value : Value)
  | table (origin : Origin) (entries : List (String × Node))
  /-- An array of tables that headers have opened; the first one apart from the others, the last one
  in front. -/
  | tables (last : List (String × Node)) (earlier : List (List (String × Node)))

/-- The entries of a table under construction, in the order of their creation. -/
abbrev Outline := List (String × Node)

namespace Outline

/-- The entries with another node for a key. -/
def set (outline : Outline) (key : String) (node : Node) : Outline :=
  match outline with
  | [] => [(key, node)]
  | entry :: rest => if entry.1 = key then (key, node) :: rest else entry :: set rest key node

/-- Goes along a path, with `origin` for the tables that are created on the way, and changes the
entries of the table at its end. -/
def within (origin : Origin) (change : Origin → Outline → Option Outline) :
    List String → Origin → Outline → Option Outline
  | [], own, outline => change own outline
  | key :: path, _, outline =>
      match lookup? key outline with
      | none => do
          let inner ← within origin change path origin []
          return outline.set key (.table origin inner)
      | some (.table own inner) =>
          if origin = .dotted ∧ own = .opened then none
          else do
            let inner ← within origin change path own inner
            return outline.set key (.table own inner)
      | some (.tables last earlier) => do
          let last ← within origin change path .opened last
          return outline.set key (.tables last earlier)
      | some (.value _) => none

/-- Gives a new key of a table its value. Only a table that dotted keys have created takes a value
from a dotted key. -/
def addValue (key : String) (byDot : Bool) (value : Value) (own : Origin) (outline : Outline) :
    Option Outline :=
  if byDot = decide (own = .dotted) ∧ (lookup? key outline).isNone then
    some (outline.set key (.value value))
  else none

/-- Opens a table. -/
def openTable (key : String) (outline : Outline) : Option Outline :=
  match lookup? key outline with
  | none => some (outline.set key (.table .opened []))
  | some (.table .passed entries) => some (outline.set key (.table .opened entries))
  | some _ => none

/-- Opens one more table of an array of tables. -/
def openElement (key : String) (outline : Outline) : Option Outline :=
  match lookup? key outline with
  | none => some (outline.set key (.tables [] []))
  | some (.tables last earlier) => some (outline.set key (.tables [] (last :: earlier)))
  | some _ => none

/-- Gives the last key of a path its value, below the table at `header`. -/
def assign (outline : Outline) (header path : List String) (key : String) (value : Value) :
    Option Outline :=
  let change := within .dotted (fun own => addValue key (!path.isEmpty) value own) path
  within .passed change header .opened outline

/-- Opens the table that a header names by a path and a last key. -/
def openHeader (outline : Outline) (path : List String) (key : String) : Option Outline :=
  within .passed (fun _ => openTable key) path .opened outline

/-- Opens the table that a header in double brackets names. -/
def openArrayHeader (outline : Outline) (path : List String) (key : String) : Option Outline :=
  within .passed (fun _ => openElement key) path .opened outline

end Outline

mutual

/-- What a node has become in the end. -/
def Node.finish : Node → Value
  | .value value => value
  | .table _ entries => .table (finishEntries entries)
  | .tables last earlier => .array ((finishTables earlier).reverse ++ [.table (finishEntries last)])

/-- The entries of a finished table. -/
def finishEntries : List (String × Node) → List (String × Value)
  | [] => []
  | (key, node) :: rest => (key, node.finish) :: finishEntries rest

def finishTables : List (List (String × Node)) → List Value
  | [] => []
  | entries :: rest => .table (finishEntries entries) :: finishTables rest

end

end LintRepair.Toml
