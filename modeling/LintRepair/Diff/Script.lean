/-!
# Edit scripts

An edit script leads from an old list to a new one by keeping, deleting and inserting runs of items.
The script carries the items themselves, so both lists can be read off it: `old` and `new` are
functions of the script, and a script is one from `a` to `b` when they give `a` and `b`.
-/

namespace LintRepair.Diff

/-- One step of an edit script. -/
inductive Step (α : Type) where
  | keep (items : List α)
  | delete (items : List α)
  | insert (items : List α)
deriving DecidableEq, Repr

/-- Steps from the front of the lists to their end. -/
abbrev Script (α : Type) := List (Step α)

namespace Step

variable {α : Type}

def items : Step α → List α
  | keep items | delete items | insert items => items

def old : Step α → List α
  | keep items | delete items => items
  | insert _ => []

def new : Step α → List α
  | keep items | insert items => items
  | delete _ => []

/-- The items that only the old list has. -/
def deleted : Step α → List α
  | delete items => items
  | keep _ | insert _ => []

/-- The items that only the new list has. -/
def inserted : Step α → List α
  | insert items => items
  | keep _ | delete _ => []

end Step

namespace Script

variable {α : Type}

/-- The list that the script starts from. -/
def old (script : Script α) : List α :=
  script.flatMap Step.old

/-- The list that the script leads to. -/
def new (script : Script α) : List α :=
  script.flatMap Step.new

def deleted (script : Script α) : List α :=
  script.flatMap Step.deleted

def inserted (script : Script α) : List α :=
  script.flatMap Step.inserted

def kept (script : Script α) : List α :=
  script.flatMap fun step =>
    match step with
    | .keep items => items
    | _ => []

/-- The steps that keep these items; none for no items. -/
def keeping (items : List α) : Script α :=
  if items.isEmpty then [] else [.keep items]

/-! ## Changes -/

/-- What is done between two kept runs: items deleted and items inserted. -/
structure Change (α : Type) where
  deleted : List α := []
  inserted : List α := []
deriving DecidableEq, Repr

/-- The changes of a script, given what has been collected since the last kept run. -/
def changesFrom (pending : Change α) : Script α → List (Change α)
  | [] => [pending]
  | .keep _ :: rest => pending :: changesFrom {} rest
  | .delete items :: rest =>
      changesFrom { pending with deleted := pending.deleted ++ items } rest
  | .insert items :: rest =>
      changesFrom { pending with inserted := pending.inserted ++ items } rest

/-- The changes of a script, one for every gap between kept runs. -/
def changes (script : Script α) : List (Change α) :=
  changesFrom {} script

end Script

end LintRepair.Diff
