import LintRepair.Report.ReadError

/-!
# Reading records

A record is written as an object with its fields in any order, or as an array of its fields in the
order of the layout. Fields are read from left to right into a record that starts with the default
of every field; the first problem met on the way is the answer. Unknown fields are passed over,
known ones may not repeat, and after the end of the object the first field is missed that is
required and has not been there. Arrays may leave out fields at the end that are not required.
-/

namespace LintRepair.Report

open Json (Value Key Fault)

/-- One field of a record type: its name, whether it is required, and how its value is put into a
record. -/
structure Field (α : Type) where
  name : String
  required : Bool
  read : Value → α → Except ReadError α

/-- A record type: its name in messages and its fields in order. -/
structure Layout (α : Type) where
  name : String
  fields : List (Field α)

namespace Layout

variable {α : Type}

def field? (layout : Layout α) (name : String) : Option (Field α) :=
  layout.fields.find? fun field => field.name == name

/-- A fault at the end of an array or object, if there is one. -/
def checkEnd (fault : Option Fault) : Except ReadError Unit :=
  match fault with
  | some fault => .error (.fault fault)
  | none => .ok ()

/-- Reads members one after the other. `seen` holds the names of the fields that were there. -/
def readMembers (layout : Layout α) :
    List (Key × Value) → List String → α → Except ReadError (List String × α)
  | [], seen, record => .ok (seen, record)
  | (key, value) :: rest, seen, record =>
      match key with
      | .text name =>
          match layout.field? name with
          | some field =>
              if name ∈ seen then .error (.duplicate name)
              else do
                let record ← field.read value record
                layout.readMembers rest (name :: seen) record
          | none =>
              match value.skipFault? with
              | some fault => .error (.fault fault)
              | none => layout.readMembers rest seen record
      | .unpaired => .error (.fault .malformed)
      | .broken read _ => .error (.fault read)
      | .other _ => .error (.fault .malformed)

/-- Reads items as the fields of a layout, one after the other; items without a field come back. -/
def readItems : List (Field α) → List Value → α → Except ReadError (List Value × α)
  | field :: fields, item :: items, record => do
      let record ← field.read item record
      readItems fields items record
  | _, items, record => .ok (items, record)

/-- The first required field that has not been there. -/
def missing? (layout : Layout α) (seen : List String) : Option (Field α) :=
  layout.fields.find? fun field => field.required && !seen.contains field.name

/-- Reads a record, given the record of all defaults. -/
def read (layout : Layout α) (defaults : α) (value : Value) : Except ReadError α :=
  match value with
  | .object members fault => do
      let (seen, record) ← layout.readMembers members [] defaults
      checkEnd fault
      match layout.missing? seen with
      | some field => .error (.missing field.name)
      | none => .ok record
  | .array items fault => do
      let (extra, record) ← readItems layout.fields items defaults
      if extra.isEmpty then checkEnd fault else .error (.fault .malformed)
      if (layout.fields.drop items.length).any Field.required then
        .error (.tooFew items.length layout.name layout.fields.length)
      else .ok record
  | value =>
      match value.describe with
      | .ok found => .error (.wrongType found ("struct " ++ layout.name))
      | .error fault => .error (.fault fault)

end Layout

end LintRepair.Report
