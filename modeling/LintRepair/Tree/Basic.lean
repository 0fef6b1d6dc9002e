import LintRepair.Path.Basic

/-!
# File trees

A tree holds the files, directories and symbolic links below the root directory, each at its
location: the names on the way from the root to it. The order of the entries is the order in which
a directory lists its own. Relative paths start at the working directory of the tree. A file has its
permission bits in its entry; those of directories stand beside the entries, because whether a path
can be walked does not depend on them here.
-/

namespace LintRepair

/-- The names from the root directory to an entry. -/
abbrev Location := List String

def Location.path (location : Location) : Path :=
  match location with
  | [] => Path.root
  | names => ⟨"" :: names⟩

/-- What a file holds: text, or bytes that are no text in UTF-8. -/
inductive Content where
  | text (value : String)
  | binary (bytes : List UInt8)
deriving DecidableEq

def Content.ofBytes (bytes : ByteArray) : Content :=
  match String.fromUTF8? bytes with
  | some value => .text value
  | none => .binary bytes.toList

/-- What there is at a location. -/
inductive Entry where
  /-- A file and its permission bits. -/
  | file (content : Content) (mode : Nat)
  | directory
  | link (target : String)
deriving DecidableEq

/-- The entries below the root directory, and the working directory. -/
structure Tree where
  entries : List (Location × Entry) := []
  workingDirectory : Location := []
  /-- The permission bits of directories; one that does not occur has those of a new directory. -/
  directoryModes : List (Location × Nat) := []

/-- Why an operation on a tree fails. -/
inductive IoError where
  | notFound
  | busy
  | exists
  | notDirectory
  | isDirectory
  | nameTooLong
  | tooManyLinks
  /-- A path contains the character that ends paths. -/
  | endInPath
  | notText
deriving DecidableEq, Repr

def IoError.message : IoError → String
  | .notFound => "No such file or directory (os error 2)"
  | .busy => "Device or resource busy (os error 16)"
  | .exists => "File exists (os error 17)"
  | .notDirectory => "Not a directory (os error 20)"
  | .isDirectory => "Is a directory (os error 21)"
  | .nameTooLong => "File name too long (os error 36)"
  | .tooManyLinks => "Too many levels of symbolic links (os error 40)"
  | .endInPath => "file name contained an unexpected NUL byte"
  | .notText => "stream did not contain valid UTF-8"

namespace Tree

/-- The permission bits of a new directory. -/
def newDirectoryMode : Nat := 0o755

/-- The permission bits of the directory at a location. -/
def directoryMode (tree : Tree) (location : Location) : Nat :=
  (tree.directoryModes.lookup location).getD newDirectoryMode

/-- What there is at a location. The root is a directory. -/
def entry? (tree : Tree) (location : Location) : Option Entry :=
  if location = [] then some .directory
  else (tree.entries.find? fun entry => entry.1 == location).map Prod.snd

/-- Entries with another one at a location; a new one comes last. -/
def setEntry (location : Location) (entry : Entry) :
    List (Location × Entry) → List (Location × Entry)
  | [] => [(location, entry)]
  | first :: rest =>
      if first.1 = location then (location, entry) :: rest
      else first :: setEntry location entry rest

/-- The tree with another entry at a location. -/
def set (tree : Tree) (location : Location) (entry : Entry) : Tree :=
  { tree with entries := setEntry location entry tree.entries }

/-- The tree without what there is at a location and below it. -/
def erase (tree : Tree) (location : Location) : Tree :=
  { tree with entries := tree.entries.filter fun entry => !location.isPrefixOf entry.1 }

/-- The entries directly inside a directory, by their names. -/
def children (tree : Tree) (location : Location) : List (String × Entry) :=
  tree.entries.filterMap fun (place, entry) =>
    match place.getLast? with
    | some name => if place.dropLast = location then some (name, entry) else none
    | none => none

end Tree

end LintRepair
