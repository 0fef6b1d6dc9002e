import LintRepair.Command.Reach

/-!
# The program

Brings the part of the file system that a run looks at into a tree, runs the command line on it, and
carries out what the run has changed.

The core library sets permission bits but does not read them, and of a link it tells only where all
links on the way lead. So the tree holds a value of its own for the bits of a file that was there,
and for a link its resolved target; a link that leads nowhere counts as nothing.
-/

namespace LintRepair

/-- A part of the file system, and what has been looked for elsewhere. -/
structure Snapshot where
  tree : Tree
  /-- Locations where there is nothing. -/
  absent : List Location := []
  /-- Directories whose entries are all known. -/
  listed : List Location := []

/-- Stands for the permission bits of a file that was there. Bits themselves are smaller. -/
def unknownMode : Nat := 0o10000

/-- What there is at a location of the file system. -/
def readEntry (location : Location) : IO (Option Entry) := do
  try
    let path := (← IO.currentDir) / location.path.text
    match (← path.symlinkMetadata).type with
    | .dir => return some .directory
    | .symlink => return some (.link (← IO.FS.realPath path).toString)
    | _ => return some (.file (.ofBytes (← IO.FS.readBinFile path)) unknownMode)
  catch _ => return none

def Snapshot.look (snapshot : Snapshot) (location : Location) : IO Snapshot := do
  match ← readEntry location with
  | some entry => return { snapshot with tree := snapshot.tree.set location entry }
  | none => return { snapshot with absent := location :: snapshot.absent }

/-- Looks at all that a path leads through. -/
partial def Snapshot.follow (snapshot : Snapshot) (path : Path) : IO Snapshot := do
  match snapshot.tree.walkFrom path path.allSteps with
  | .error ⟨place, .notFound⟩ =>
      if (snapshot.tree.entry? place).isSome || place ∈ snapshot.absent then return snapshot
      else (← snapshot.look place).follow path
  | _ => return snapshot

def Snapshot.list (snapshot : Snapshot) (location : Location) : IO Snapshot := do
  let mut snapshot := { snapshot with listed := location :: snapshot.listed }
  for entry in ← ((← IO.currentDir) / location.path.text).readDir do
    let place := location ++ [entry.fileName]
    if (snapshot.tree.entry? place).isNone then snapshot ← snapshot.look place
  return snapshot

/-- Looks at a report, or at all that are in a directory. -/
def Snapshot.reports (snapshot : Snapshot) (path : Path) : IO Snapshot := do
  match snapshot.tree.locate path with
  | .ok location =>
      if snapshot.tree.entry? location = some .directory ∧ location ∉ snapshot.listed then
        snapshot.list location
      else return snapshot
  | .error _ => return snapshot

def Snapshot.size (snapshot : Snapshot) : Nat :=
  snapshot.tree.entries.length + snapshot.absent.length + snapshot.listed.length

/-- Looks at all that a run looks at. -/
partial def Snapshot.complete (snapshot : Snapshot) (request : Command.Request)
    (environment : Command.Environment) : IO Snapshot := do
  let mut next := snapshot
  for path in request.paths environment snapshot.tree do
    next ← next.follow path
  for path in request.options.reports do
    next ← next.reports path
  if next.size = snapshot.size then return next else next.complete request environment

/-- The working directory and those above it. -/
def Snapshot.start : IO Snapshot := do
  let text := (← IO.FS.realPath (← IO.currentDir)).toString
  let location : Location := (Path.ofText text).steps
  let above := (List.range location.length).map fun count => location.take (count + 1)
  let entries := above.map fun place => (place, Entry.directory)
  return { tree := { entries, workingDirectory := location } }

/-- Permission bits as the core library sets them. -/
def accessRights (mode : Nat) : IO.FileRight :=
  let right (shift : Nat) : IO.AccessRight :=
    { read := mode.testBit (shift + 2)
      write := mode.testBit (shift + 1)
      execution := mode.testBit shift }
  { user := right 6, group := right 3, other := right 0 }

/-- Puts a complete file in the place of what was there. It gets its permission bits and is renamed;
but bits that are not known can only stay, and so such a file takes over the content instead, and
gets its old one back if that fails. -/
def putComplete (complete target : String) (before : Option Entry) (content : String)
    (mode : Nat) : IO Unit := do
  match before, decide (mode = unknownMode) with
  | some (.file (.text old) _), true =>
      try
        IO.FS.writeFile target content
      catch error =>
        IO.FS.writeFile target old
        throw error
      IO.FS.removeFile complete
  | _, unknown =>
      if !unknown then IO.setAccessRights complete (accessRights mode)
      IO.FS.rename complete target

/-- Writes a file as a whole or not at all: nothing happens at its place before it is complete under
a new name beside it. -/
def commitFile (place : Location) (before : Option Entry) (content : String) (mode : Nat) :
    IO Unit := do
  let temporary := ".tmp" ++ toString (← IO.monoNanosNow)
  let complete := (Location.path (place.dropLast ++ [temporary])).text
  let file ← IO.FS.Handle.mk complete .writeNew
  try
    file.putStr content
    file.flush
    putComplete complete place.path.text before content mode
  catch error =>
    IO.FS.removeFile complete
    throw error

/-- Carries out what has changed between two trees. -/
def commit (before after : Tree) : IO Unit := do
  for (place, entry) in after.entries do
    if before.entry? place ≠ some entry then
      match entry with
      | .directory => IO.FS.createDir place.path.text
      | .file (.text content) mode => commitFile place (before.entry? place) content mode
      | .file (.binary _) _ | .link _ => pure ()

def readInput : IO Report.Input := do
  let mut bytes := ByteArray.empty
  let stdin ← IO.getStdin
  repeat
    let block ← stdin.read 65536
    if block.isEmpty then break
    bytes := bytes ++ block
  match String.fromUTF8? bytes with
  | some text => return .ok text
  | none => return .error .notText

/-- Whether styles are shown: where they are forced, and on a terminal unless they are refused. -/
def readColored : IO Bool := do
  match ← IO.getEnv "CLICOLOR_FORCE" with
  | some "0" | none =>
      return (← IO.getEnv "NO_COLOR").isNone && (← IO.getEnv "CLICOLOR") != some "0" &&
        (← (← IO.getStdout).isTty)
  | some _ => return true

/-- Runs a command line on the file system. -/
def runProgram (arguments : List String) : IO Command.Outcome := do
  match Command.Request.parse {} arguments with
  | .error _ => return Command.run arguments {} {}
  | .ok request =>
      let wantsInput := request.options.reports.any fun path =>
        decide (path.SameAs Report.standardInput)
      let input ← if wantsInput then readInput else pure (.ok "")
      let environment : Command.Environment :=
        { input, colored := ← readColored, logFilter := ← IO.getEnv "RUST_LOG" }
      let snapshot ← (← Snapshot.start).complete request environment
      let outcome := Command.run arguments environment snapshot.tree
      commit snapshot.tree outcome.tree
      return outcome

end LintRepair

def main (arguments : List String) : IO UInt32 := do
  let outcome ← LintRepair.runProgram arguments
  IO.print outcome.stdout
  IO.eprint outcome.stderr
  return outcome.status.toUInt32
