import LintRepair.Toml.Outline
import LintRepair.Toml.Scalar
import LintRepair.Toml.Text

/-!
# Reading TOML

`Toml.parse?` reads a document of version 1.0 of the language; a byte order mark may stand in front
of it. A document is a sequence of lines, each of which is empty, gives a key its value or is a
header; values in arrays may go over several lines. Brackets may be nested eighty deep. There is no
answer when the text is no such document.

The readers recurse on an allowance that is larger than the text needs.
-/

namespace LintRepair.Toml

def skipBlanks (chars : List Char) : List Char :=
  chars.dropWhile isBlank

/-- The characters behind blanks, line breaks and comments. -/
def skipGaps (inComment : Bool) : List Char → Option (List Char)
  | [] => some []
  | '\r' :: '\n' :: rest => skipGaps false rest
  | c :: rest =>
      if c = '\n' then skipGaps false rest
      else if inComment then (if isPlain c then skipGaps true rest else none)
      else if isBlank c then skipGaps false rest
      else if c = '#' then skipGaps true rest
      else some (c :: rest)

/-- The characters from the line break that ends a comment on. -/
def skipComment : List Char → Option (List Char)
  | [] => some []
  | '\r' :: '\n' :: rest => some ('\n' :: rest)
  | c :: rest =>
      if c = '\n' then some (c :: rest) else if isPlain c then skipComment rest else none

/-- The characters of the next line. Only blanks and a comment may stand before the line break. -/
def endLine? (chars : List Char) : Option (List Char) :=
  match skipBlanks chars with
  | [] => some []
  | '#' :: rest => do
      match ← skipComment rest with
      | [] => some []
      | rest => afterBreak? rest
  | rest => afterBreak? rest

/-! ## Keys -/

def isKeyChar (c : Char) : Bool :=
  c.isAlphanum || c == '_' || c == '-'

/-- Reads one part of a key. -/
def readKeyPart (chars : List Char) : Option (String × List Char) :=
  match chars with
  | '"' :: rest => readBasic [] rest
  | '\'' :: rest => readLiteral [] rest
  | chars =>
      let key := chars.takeWhile isKeyChar
      if key.isEmpty then none else some (String.ofList key, chars.dropWhile isKeyChar)

/-- Reads a key: parts with points between them, and blanks around each. The last part comes apart
from the others. -/
def readKey : Nat → List Char → Option (List String × String × List Char)
  | 0, _ => none
  | fuel + 1, chars => do
      let (part, rest) ← readKeyPart (skipBlanks chars)
      match skipBlanks rest with
      | '.' :: rest =>
          let (path, key, rest) ← readKey fuel rest
          return (part :: path, key, rest)
      | rest => return ([], part, rest)

/-! ## Values -/

/-- How deep brackets may be nested. -/
def maxDepth : Nat := 80

mutual

/-- Reads a value that stands in `depth` brackets. -/
def readValue : Nat → Nat → List Char → Option (Value × List Char)
  | 0, _, _ => none
  | fuel + 1, depth, chars =>
      match chars with
      | '"' :: _ | '\'' :: _ => do
          let (value, rest) ← readString chars
          return (.text value, rest)
      | '[' :: rest => do
          if maxDepth ≤ depth then none
          else
            let (items, rest) ← readItems fuel (depth + 1) rest
            return (.array items, rest)
      | '\x7b' :: rest => do
          if maxDepth ≤ depth then none
          else
            match skipBlanks rest with
            | '\x7d' :: rest => return (.table [], rest)
            | rest =>
                let (outline, rest) ← readPairs fuel (depth + 1) [] rest
                return (.table (finishEntries outline), rest)
      | chars => readScalar chars

/-- Reads the items of an array up to its closing bracket, before which a comma may stand. -/
def readItems : Nat → Nat → List Char → Option (List Value × List Char)
  | 0, _, _ => none
  | fuel + 1, depth, chars => do
      match ← skipGaps false chars with
      | ']' :: rest => return ([], rest)
      | rest =>
          let (item, rest) ← readValue fuel depth rest
          match ← skipGaps false rest with
          | ']' :: rest => return ([item], rest)
          | ',' :: rest =>
              let (items, rest) ← readItems fuel depth rest
              return (item :: items, rest)
          | _ => none

/-- Reads the pairs of a table in braces, which stands on one line. -/
def readPairs : Nat → Nat → Outline → List Char → Option (Outline × List Char)
  | 0, _, _, _ => none
  | fuel + 1, depth, outline, chars => do
      let (path, key, rest) ← readKey fuel chars
      match rest with
      | '=' :: rest =>
          let (value, rest) ← readValue fuel depth (skipBlanks rest)
          let outline ← outline.assign [] path key value
          match skipBlanks rest with
          | '\x7d' :: rest => return (outline, rest)
          | ',' :: rest => readPairs fuel depth outline rest
          | _ => none
      | _ => none

end

/-! ## Documents -/

/-- A document up to some line: its tables, and the path of the table that is open. -/
structure Draft where
  outline : Outline := []
  header : List String := []

/-- Reads a header behind its opening bracket. -/
def Draft.readHeader (draft : Draft) (fuel : Nat) (chars : List Char) :
    Option (Draft × List Char) :=
  match chars with
  | '[' :: rest => do
      match ← readKey fuel rest with
      | (path, key, ']' :: ']' :: rest) =>
          let outline ← draft.outline.openArrayHeader path key
          return (⟨outline, path ++ [key]⟩, rest)
      | _ => none
  | rest => do
      match ← readKey fuel rest with
      | (path, key, ']' :: rest) =>
          let outline ← draft.outline.openHeader path key
          return (⟨outline, path ++ [key]⟩, rest)
      | _ => none

/-- Reads a key and its value. -/
def Draft.readPair (draft : Draft) (fuel : Nat) (chars : List Char) :
    Option (Draft × List Char) := do
  match ← readKey fuel chars with
  | (path, key, '=' :: rest) =>
      let (value, rest) ← readValue fuel 0 (skipBlanks rest)
      let outline ← draft.outline.assign draft.header path key value
      return ({ draft with outline }, rest)
  | _ => none

/-- Reads lines up to the end of the text. -/
def Draft.readLines (draft : Draft) : Nat → List Char → Option Draft
  | 0, _ => none
  | fuel + 1, chars =>
      match skipBlanks chars with
      | [] => some draft
      | '[' :: rest => do
          let (draft, rest) ← draft.readHeader fuel rest
          draft.readLines fuel (← endLine? rest)
      | rest =>
          match endLine? rest with
          | some rest => draft.readLines fuel rest
          | none => do
              let (draft, rest) ← draft.readPair fuel rest
              draft.readLines fuel (← endLine? rest)

/-- The text without a byte order mark. -/
def withoutMark : List Char → List Char
  | '\ufeff' :: rest => rest
  | chars => chars

/-- The entries of the document that a text holds. -/
def parse? (text : String) : Option (List (String × Value)) := do
  let chars := withoutMark text.toList
  let draft ← Draft.readLines {} (2 * chars.length + 2) chars
  return finishEntries draft.outline

end LintRepair.Toml
