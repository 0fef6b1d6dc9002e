/-!
# Paths

A path is its text cut at the slashes. The pieces keep everything: empty ones where slashes meet or
where the text begins or ends with one, and dots. So the text of a path comes back unchanged in
messages, while its components tell where it leads.

A path is absolute when its text begins with a slash, which makes its first piece empty and puts at
least one more behind it.
-/

namespace LintRepair

/-- The characters of a text between the slashes. -/
def cutAtSlashes : List Char → List (List Char)
  | [] => [[]]
  | c :: rest =>
      if c = '/' then [] :: cutAtSlashes rest
      else
        match cutAtSlashes rest with
        | [] => [[c]]
        | piece :: pieces => (c :: piece) :: pieces

/-- Pieces with a slash between each two of them. -/
def joinAtSlashes : List (List Char) → List Char
  | [] => []
  | [piece] => piece
  | piece :: next :: rest => piece ++ '/' :: joinAtSlashes (next :: rest)

theorem cutAtSlashes_ne_nil (chars : List Char) : cutAtSlashes chars ≠ [] := by
  fun_induction cutAtSlashes chars with
  | case1 => exact List.cons_ne_nil _ _
  | case2 => exact List.cons_ne_nil _ _
  | case3 => exact List.cons_ne_nil _ _
  | case4 => exact List.cons_ne_nil _ _

/-- Cutting loses nothing. -/
theorem joinAtSlashes_cutAtSlashes (chars : List Char) :
    joinAtSlashes (cutAtSlashes chars) = chars := by
  induction chars with
  | nil => rfl
  | cons c rest ih =>
    obtain ⟨piece, pieces, hcut⟩ := List.exists_cons_of_ne_nil (cutAtSlashes_ne_nil rest)
    rw [hcut] at ih
    by_cases hc : c = '/'
    · rw [cutAtSlashes, if_pos hc, hcut, joinAtSlashes, ih, List.nil_append, hc]
    · rw [cutAtSlashes, if_neg hc, hcut]
      cases pieces with
      | nil => exact congrArg (c :: ·) ih
      | cons next more => exact congrArg (c :: ·) ih

/-- A text without slashes is one piece. -/
theorem cutAtSlashes_of_notMem {piece : List Char} (hslash : '/' ∉ piece) :
    cutAtSlashes piece = [piece] := by
  induction piece with
  | nil => rfl
  | cons c rest ih =>
    obtain ⟨hc, hrest⟩ := not_or.mp (mt List.mem_cons.mpr hslash)
    rw [cutAtSlashes, if_neg (Ne.symm hc), ih hrest]

/-- A piece ends at the first slash. -/
theorem cutAtSlashes_append {piece rest : List Char} (hslash : '/' ∉ piece) :
    cutAtSlashes (piece ++ '/' :: rest) = piece :: cutAtSlashes rest := by
  induction piece with
  | nil => rw [List.nil_append, cutAtSlashes, if_pos rfl]
  | cons c more ih =>
    obtain ⟨hc, hmore⟩ := not_or.mp (mt List.mem_cons.mpr hslash)
    rw [List.cons_append, cutAtSlashes, if_neg (Ne.symm hc), ih hmore]

/-- Pieces without slashes are found again. -/
theorem cutAtSlashes_joinAtSlashes {pieces : List (List Char)} (hne : pieces ≠ [])
    (hslash : ∀ piece ∈ pieces, '/' ∉ piece) : cutAtSlashes (joinAtSlashes pieces) = pieces := by
  fun_induction joinAtSlashes pieces with
  | case1 => exact absurd rfl hne
  | case2 piece => exact cutAtSlashes_of_notMem (hslash piece List.mem_cons_self)
  | case3 piece next rest ih =>
    have htail := ih (List.cons_ne_nil _ _) fun other hother =>
      hslash other (List.mem_cons_of_mem _ hother)
    rw [cutAtSlashes_append (hslash piece List.mem_cons_self), htail]

/-- A path by the pieces of its text. -/
structure Path where
  pieces : List String
deriving DecidableEq, Repr, Inhabited

namespace Path

/-- What one piece of a path stands for. -/
inductive Component where
  | root
  /-- The directory where a relative path starts, named by a dot. -/
  | here
  | up
  | name (name : String)
deriving DecidableEq, Repr

/-- The path with this text. -/
def ofText (text : String) : Path :=
  ⟨(cutAtSlashes text.toList).map String.ofList⟩

def text (path : Path) : String :=
  String.ofList (joinAtSlashes (path.pieces.map String.toList))

/-- The text of a path comes back. -/
@[simp] theorem text_ofText (text : String) : (ofText text).text = text := by
  simp [Path.text, ofText, joinAtSlashes_cutAtSlashes]

def root : Path := ⟨["", ""]⟩

def empty : Path := ⟨[""]⟩

def isAbsolute (path : Path) : Bool :=
  match path.pieces with
  | "" :: _ :: _ => true
  | _ => false

def isEmpty (path : Path) : Bool :=
  path.pieces.all String.isEmpty && path.pieces.length ≤ 1

/-- What a piece stands for that is not the first one. -/
def componentOf? (piece : String) : Option Component :=
  if piece = "" ∨ piece = "." then none
  else if piece = ".." then some .up
  else some (.name piece)

/-- The components of a path. Empty pieces and dots do not count, but a dot at the very front does.
-/
def components (path : Path) : List Component :=
  match path.pieces with
  | [] => []
  | "" :: second :: rest => .root :: (second :: rest).filterMap componentOf?
  | "." :: rest => .here :: rest.filterMap componentOf?
  | pieces => pieces.filterMap componentOf?

/-- The piece of a component behind the root. -/
def Component.piece : Component → String
  | .root => ""
  | .here => "."
  | .up => ".."
  | .name value => value

/-- The path with these components and nothing else in its text. -/
def ofComponents (components : List Component) : Path :=
  match components with
  | [] => empty
  | [.root] => root
  | components => ⟨components.map Component.piece⟩

/-- Whether two texts name the same components. -/
def SameAs (a b : Path) : Prop :=
  a.components = b.components

instance (a b : Path) : Decidable (a.SameAs b) :=
  inferInstanceAs (Decidable (_ = _))

/-- The path that leads along `first` and then along `second`; an absolute `second` needs no
`first`. -/
def join (first second : Path) : Path :=
  if second.isAbsolute || first.isEmpty then second
  else if first.pieces.getLast? = some "" then ⟨first.pieces.dropLast ++ second.pieces⟩
  else ⟨first.pieces ++ second.pieces⟩

/-- Pieces without those at the end that stand for nothing; the first piece is kept in any case. -/
def trimEnd : List String → List String
  | [] => []
  | first :: rest =>
      first :: (rest.reverse.dropWhile fun piece => piece == "" || piece == ".").reverse

/-- The text of a path up to its last component, if that is not the root. -/
def parent? (path : Path) : Option Path :=
  match trimEnd path.pieces with
  | [] => none
  | [piece] => if path.isAbsolute || piece = "" then none else some empty
  | pieces =>
      let above := trimEnd pieces.dropLast
      if above = [""] then some root else some ⟨above⟩

/-- A path and the paths above it, nearest first, as long as the allowance lasts. -/
def ancestorsWithin : Nat → Path → List Path
  | 0, path => [path]
  | allowance + 1, path =>
      match path.parent? with
      | some parent => path :: ancestorsWithin allowance parent
      | none => [path]

/-- A path and the paths above it, nearest first. -/
def ancestors (path : Path) : List Path :=
  ancestorsWithin (path.pieces.length + 1) path

/-- The last component, if it is a name. -/
def fileName? (path : Path) : Option String :=
  match path.components.getLast? with
  | some (.name name) => some name
  | _ => none

/-- What stands behind the last point of a file name, provided that something stands before it. -/
def extension? (path : Path) : Option String := do
  let name ← path.fileName?
  let backwards := name.toList.reverse
  let before := (backwards.dropWhile (· ≠ '.')).drop 1
  if before.isEmpty then none
  else some (String.ofList (backwards.takeWhile (· ≠ '.')).reverse)

/-- The components of `path` behind those of `first`, if it starts with them. -/
def componentsBehind? (path first : Path) : Option (List Component) :=
  if first.components <+: path.components then
    some (path.components.drop first.components.length)
  else none

end Path

end LintRepair
