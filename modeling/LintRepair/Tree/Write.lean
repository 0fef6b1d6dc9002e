import LintRepair.Tree.Walk

/-!
# Changing a tree

Directories are made one by one or together with those above them. The content of a file is never
changed in place: `replaceFile` writes a temporary file beside the old one and renames it when it is
complete, so that either the whole new content is there or nothing has happened.
-/

namespace LintRepair.Tree

/-- The directory in which the last step of a path is taken, and that step; a path without steps
has none. -/
def locateLast (tree : Tree) (path : Path) : Except IoError (Location × Option String) := do
  let directory ← (tree.walkAll path path.steps.dropLast).mapError Obstacle.error
  if tree.entry? directory ≠ some .directory then throw .notDirectory
  else return (directory, path.steps.getLast?)

def makeDirectory (tree : Tree) (path : Path) : Except IoError Tree := do
  let (directory, last) ← tree.locateLast path
  match last with
  | none | some "." | some ".." => throw .exists
  | some name =>
      if maxNameLength < name.utf8ByteSize then throw .nameTooLong
      else if (tree.entry? (directory ++ [name])).isSome then throw .exists
      else return tree.set (directory ++ [name]) .directory

/-- What several steps have made of a tree, and whether all of them succeeded. -/
structure Attempt where
  tree : Tree
  result : Except IoError Unit

/-- Makes a directory unless it is there. -/
def ensureDirectory (tree : Tree) (path : Path) : Attempt :=
  match tree.makeDirectory path with
  | .ok tree => ⟨tree, .ok ()⟩
  | .error error => ⟨tree, if tree.isDirectory path then .ok () else .error error⟩

/-- Makes a directory and the directories above it that are missing, as long as the allowance
lasts. Directories that have been made stay when a later step fails. -/
def makeDirectoriesWithin : Nat → Tree → Path → Attempt
  | 0, tree, _ => ⟨tree, .error .notFound⟩
  | allowance + 1, tree, path =>
      if path.components.isEmpty then ⟨tree, .ok ()⟩
      else
        let attempt := tree.ensureDirectory path
        match attempt.result, path.parent? with
        | .error .notFound, some parent =>
            let above := makeDirectoriesWithin allowance tree parent
            match above.result with
            | .ok () => above.tree.ensureDirectory path
            | .error error => ⟨above.tree, .error error⟩
        | _, _ => attempt

/-- Makes a directory and the directories above it that are missing. -/
def makeDirectories (tree : Tree) (path : Path) : Attempt :=
  makeDirectoriesWithin (path.pieces.length + 2) tree path

/-- The permission bits of a new file. -/
def newFileMode : Nat := 0o600

/-- Where a file can be put by the last step of a path, in the place of a file or link that is
there. -/
def placeInside (tree : Tree) (path : Path) (directory : Location) :
    Option String → Except IoError Location
  | none | some "." | some ".." => .error .busy
  | some name =>
      if maxNameLength < name.utf8ByteSize then .error .nameTooLong
      else if path.endsWithSlash then .error .notDirectory
      else if tree.entry? (directory ++ [name]) = some .directory then .error .isDirectory
      else .ok (directory ++ [name])

/-- The directory that the text of a path names for its last step. A new file for the path is
written there first. -/
def besidePlace (tree : Tree) (path : Path) : Except IoError Location := do
  let parent := path.parent?.getD Path.empty
  let beside := if parent.isEmpty then Path.ofText "." else parent
  let place ← tree.locate beside
  if tree.entry? place ≠ some .directory then throw .notDirectory
  else return place

/-- The place that a file takes when it is renamed to a path. -/
def renamedPlace (tree : Tree) (path : Path) : Except IoError Location := do
  let (directory, last) ← tree.locateLast path
  tree.placeInside path directory last

/-- Renames the entry at a location to a path. -/
def rename (tree : Tree) (source : Location) (path : Path) : Except IoError Tree := do
  let place ← tree.renamedPlace path
  match tree.entry? source with
  | some entry => return (tree.erase source).set place entry
  | none => throw .notFound

/-- The texts in which the entries of a tree are named, and the target of every link. -/
def usedTexts (tree : Tree) : List String :=
  tree.workingDirectory ++ tree.entries.flatMap fun (location, entry) =>
    match entry with
    | .link target => target :: location
    | _ => location

/-- A name that occurs neither in a tree nor in a path, because it is longer than what does. -/
def unusedName (tree : Tree) (path : Path) : String :=
  ".tmp" ++ String.join (path.pieces ++ tree.usedTexts)

/-- Puts a file with the given content where a path leads to. The file is written under another name
beside its place and renamed when it is complete; if it cannot be renamed, it is removed. -/
def replaceFile (tree : Tree) (path : Path) (content : String) (mode : Nat) : Attempt :=
  match tree.besidePlace path with
  | .error error => ⟨tree, .error error⟩
  | .ok beside =>
      let temporary := beside ++ [tree.unusedName path]
      let written := tree.set temporary (.file (.text content) mode)
      match written.rename temporary path with
      | .ok renamed => ⟨renamed, .ok ()⟩
      | .error error => ⟨written.erase temporary, .error error⟩

/-- Writes a file where a path leads to. A link at the end is passed, and a file that is there gives
way. -/
def putFile (tree : Tree) (path : Path) (content : Content) (mode : Nat) :
    Except IoError Tree := do
  match tree.locate path with
  | .ok location => return tree.set location (.file content mode)
  | .error _ => do
      let (directory, last) ← tree.locateLast path
      match last with
      | some name => return tree.set (directory ++ [name]) (.file content mode)
      | none => throw .isDirectory

def putLink (tree : Tree) (path : Path) (target : String) : Except IoError Tree := do
  let (directory, last) ← tree.locateLast path
  match last with
  | some name => return tree.set (directory ++ [name]) (.link target)
  | none => throw .exists

/-- Removes what a path leads to, but not what a link leads to. -/
def removeEntry (tree : Tree) (path : Path) : Except IoError Tree := do
  let (directory, last) ← tree.locateLast path
  match last with
  | some name => return tree.erase (directory ++ [name])
  | none => throw .busy

end LintRepair.Tree
