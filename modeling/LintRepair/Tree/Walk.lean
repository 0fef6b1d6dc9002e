import LintRepair.Tree.Basic

/-!
# Walking a tree

A path is followed piece by piece. A name leads to an entry of the directory where the walk has
come to, a dot leads nowhere, and two dots lead up; at the root they lead nowhere. A link on the way
is replaced by its target; at the end of the way this is left to the caller. A way may pass through
at most forty links.

A slash at the end of a path means the same as a slash and a dot: the walk has to end in a
directory.
-/

namespace LintRepair

/-- The largest number of bytes in a name. -/
def maxNameLength : Nat := 255

/-- The largest number of bytes in a path. -/
def maxPathLength : Nat := 4095

/-- The largest number of links on one way. -/
def maxLinks : Nat := 40

namespace Path

/-- The pieces that a walk goes through. -/
def steps (path : Path) : List String :=
  path.pieces.filter fun piece => piece != ""

def endsWithSlash (path : Path) : Bool :=
  path.pieces.length > 1 && path.pieces.getLast? == some ""

/-- The pieces that a walk goes through, with a dot for a slash at the end. -/
def allSteps (path : Path) : List String :=
  path.steps ++ if path.endsWithSlash then ["."] else []

/-- The faults that a path of any length has by itself. -/
def checkText (path : Path) : Except IoError Unit :=
  if path.text.toList.contains '\x00' then .error .endInPath
  else if path.isEmpty then .error .notFound
  else .ok ()

def checkLength (path : Path) : Except IoError Unit :=
  if maxPathLength < path.text.utf8ByteSize then .error .nameTooLong else .ok ()

/-- The faults that a path has by itself. -/
def check (path : Path) : Except IoError Unit := do
  path.checkText
  path.checkLength

end Path

/-- Where a walk cannot go on, and why. -/
structure Obstacle where
  place : Location
  error : IoError
deriving DecidableEq, Repr

namespace Tree

def start (tree : Tree) (path : Path) : Location :=
  if path.isAbsolute then [] else tree.workingDirectory

/-- Walks from a directory, up to the first link that has to be passed. `pass` walks on from there:
it is given the place of the link, its target and the steps that are left. A link at the end is
passed only if `followLast` says so. -/
def walkTo (tree : Tree) (followLast : Bool)
    (pass : Location → String → List String → Except Obstacle Location) (current : Location) :
    List String → Except Obstacle Location
  | [] => .ok current
  | step :: rest =>
      if tree.entry? current ≠ some .directory then .error ⟨current, .notDirectory⟩
      else if step = "." then tree.walkTo followLast pass current rest
      else if step = ".." then tree.walkTo followLast pass current.dropLast rest
      else if maxNameLength < step.utf8ByteSize then .error ⟨current, .nameTooLong⟩
      else
        match tree.entry? (current ++ [step]) with
        | none => .error ⟨current ++ [step], .notFound⟩
        | some (.link target) =>
            if rest.isEmpty && !followLast then .ok (current ++ [step])
            else pass (current ++ [step]) target rest
        | some _ => tree.walkTo followLast pass (current ++ [step]) rest

/-- Walks from a directory. `links` more links may be passed; a link at the end is passed only if
`followLast` says so. -/
def walk (tree : Tree) (followLast : Bool) :
    Nat → Location → List String → Except Obstacle Location
  | 0 => tree.walkTo followLast fun place _ _ => .error ⟨place, .tooManyLinks⟩
  | links + 1 =>
      tree.walkTo followLast fun place target rest =>
        let path := Path.ofText target
        let origin := if path.isAbsolute then [] else place.dropLast
        tree.walk followLast links origin (path.allSteps ++ rest)

/-- Walks along steps past all links, from where a path starts. -/
def walkFrom (tree : Tree) (path : Path) (steps : List String) : Except Obstacle Location :=
  tree.walk true maxLinks (tree.start path) steps

/-- Walks along steps of a path that has no faults by itself. -/
def walkAll (tree : Tree) (path : Path) (steps : List String) : Except Obstacle Location := do
  path.check.mapError fun error => ⟨tree.start path, error⟩
  tree.walkFrom path steps

/-- The location that a path leads to, past all links. -/
def locate (tree : Tree) (path : Path) : Except IoError Location :=
  (tree.walkAll path path.allSteps).mapError Obstacle.error

/-- What there is where a path leads to. -/
def follow? (tree : Tree) (path : Path) : Option Entry :=
  match tree.locate path with
  | .ok location => tree.entry? location
  | .error _ => none

def pathExists (tree : Tree) (path : Path) : Bool :=
  (tree.follow? path).isSome

def isFile (tree : Tree) (path : Path) : Bool :=
  match tree.follow? path with
  | some (.file ..) => true
  | _ => false

def isDirectory (tree : Tree) (path : Path) : Bool :=
  tree.follow? path == some .directory

/-- The path without links and dots to where a path leads. It is found step by step, so that only
the path that is found must not be too long. -/
def canonical (tree : Tree) (path : Path) : Except IoError Path := do
  path.checkText
  let location ← (tree.walkFrom path path.allSteps).mapError Obstacle.error
  location.path.checkLength
  return location.path

/-- The text of the file that a path leads to. -/
def readText (tree : Tree) (path : Path) : Except IoError String := do
  let location ← tree.locate path
  match tree.entry? location with
  | some (.file (.text value) _) => return value
  | some (.file (.binary _) _) => throw .notText
  | some .directory => throw .isDirectory
  | some (.link _) | none => throw .notFound

/-- The permission bits of what a path leads to. -/
def mode? (tree : Tree) (path : Path) : Option Nat :=
  match tree.locate path with
  | .ok location =>
      match tree.entry? location with
      | some (.file _ mode) => some mode
      | some .directory => some (tree.directoryMode location)
      | some (.link _) | none => none
  | .error _ => none

end Tree

end LintRepair
