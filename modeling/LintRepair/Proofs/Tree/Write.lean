import Mathlib.Data.List.Basic
import Mathlib.Tactic.Common
import LintRepair.Proofs.Tree.Walk
import LintRepair.Tree.Write

/-!
# What changes of a tree leave alone

A tree is known by what there is at each place (`Tree.entry?`), so a change is described by the
places where the answer is another one.  Putting a file somewhere changes one place, and without
links that is the place of the path (`eq_place_of_replacedPlace`).  A directory is made where
nothing was (`makeDirectory_eq_ok_iff`), so what is kept off some places (`KeepsOff`) is all but
that there may be more directories.
-/

namespace LintRepair

namespace Tree

variable {tree a b c : Tree} {place other directory : Location} {entry : Entry} {path : Path}
  {last : Option String}

/-! ## One entry -/

theorem find?_setEntry (place : Location) (entry : Entry) (entries : List (Location × Entry))
    (other : Location) :
    (setEntry place entry entries).find? (fun found => found.1 == other) =
      if other = place then some (place, entry)
      else entries.find? fun found => found.1 == other := by
  induction entries with
  | nil =>
      by_cases hother : other = place
      · simp [setEntry, hother]
      · simp [setEntry, hother, Ne.symm hother]
  | cons first rest ih =>
      rw [setEntry]
      by_cases hfirst : first.1 = place
      · by_cases hother : other = place
        · simp [hfirst, hother]
        · simp [hfirst, hother, Ne.symm hother]
      · -- The entry stays in front, and what is set is set in the rest.
        rw [if_neg hfirst, List.find?_cons, ih]
        by_cases hother : other = place
        · have hne : (first.1 == place) = false := by simpa using hfirst
          simp [hne, hother]
        · rw [if_neg hother, if_neg hother, List.find?_cons]

theorem entry_set_self (hplace : place ≠ []) :
    Tree.entry? (tree.set place entry) place = some entry := by
  unfold Tree.entry? Tree.set
  rw [if_neg hplace, find?_setEntry, if_pos rfl, Option.map_some]

theorem entry_set_of_ne (hne : other ≠ place) :
    Tree.entry? (tree.set place entry) other = tree.entry? other := by
  unfold Tree.entry? Tree.set
  rw [find?_setEntry, if_neg hne]

theorem linkFree_set (hfree : tree.LinkFree) (hentry : ∀ target, entry ≠ .link target)
    (hplace : place ≠ []) : (tree.set place entry).LinkFree := by
  intro other target hlink
  by_cases hother : other = place
  · rw [hother, entry_set_self hplace, Option.some.injEq] at hlink
    exact hentry target hlink
  · rw [entry_set_of_ne hother] at hlink
    exact hfree other target hlink

/-- One file for another leaves the outline. -/
theorem sameOutline_set {content content' : Content} {mode mode' : Nat} (hplace : place ≠ [])
    (hfile : tree.entry? place = some (.file content mode)) :
    (tree.set place (.file content' mode')).SameOutline tree where
  start := rfl
  outline := by
    intro other
    by_cases hother : other = place
    · rw [hother, entry_set_self hplace, hfile]
      rfl
    · rw [entry_set_of_ne hother]

/-! ## Where a file is put -/

theorem locateLast_eq_ok_iff :
    tree.locateLast path = .ok (directory, last) ↔
      tree.walkAll path path.steps.dropLast = .ok directory ∧
        tree.entry? directory = some .directory ∧ path.steps.getLast? = last := by
  unfold locateLast
  rw [FirstError.bind_eq_ok_iff]
  constructor
  · rintro ⟨found, hfound, hrest⟩
    rw [FirstError.mapError_eq_ok_iff] at hfound
    split at hrest
    · exact absurd hrest (FirstError.throw_ne_ok _ _)
    · next hdirectory =>
      simp only [pure, Except.pure, Except.ok.injEq, Prod.mk.injEq] at hrest
      obtain ⟨rfl, rfl⟩ := hrest
      exact ⟨hfound, not_not.mp hdirectory, rfl⟩
  · rintro ⟨hfound, hdirectory, rfl⟩
    refine ⟨directory, FirstError.mapError_eq_ok_iff.mpr hfound, ?_⟩
    rw [if_neg (not_not.mpr hdirectory)]
    rfl

/-- Where the last step of a path leads. -/
theorem concat_eq_place (hfree : tree.LinkFree) (habsolute : path.isAbsolute) {name : String}
    (hhere : name ≠ ".") (hup : name ≠ "..")
    (hlast : tree.locateLast path = .ok (directory, some name)) :
    directory ++ [name] = path.place := by
  obtain ⟨hwalk, -, hname⟩ := locateLast_eq_ok_iff.mp hlast
  have hdirectory : directory = path.steps.dropLast.foldl Location.step [] := by
    have hfrom := (walkAll_eq_ok_iff.mp hwalk).2
    unfold walkFrom at hfrom
    rw [start_of_isAbsolute habsolute] at hfrom
    exact eq_foldl_of_walk hfree hfrom
  have hsteps : path.steps.dropLast ++ [name] = path.steps := by
    rw [List.dropLast_append_getLast? name hname]
  unfold Path.place
  rw [← hsteps, List.foldl_append, ← hdirectory]
  exact (Location.step_of_ne hhere hup directory).symm

theorem placeInside_eq_ok_iff :
    tree.placeInside path directory last = .ok place ↔
      ∃ name, last = some name ∧ name ≠ "." ∧ name ≠ ".." ∧ name.utf8ByteSize ≤ maxNameLength ∧
        path.endsWithSlash = false ∧ tree.entry? (directory ++ [name]) ≠ some .directory ∧
        directory ++ [name] = place := by
  unfold placeInside
  split
  · simp
  · simp
  · simp
  · next name hhere hup =>
    have hnames : name ≠ "." ∧ name ≠ ".." := ⟨hhere, hup⟩
    split
    · next hlong => simp [Nat.not_le.mpr hlong]
    split
    · next hslash => simp [hslash]
    split
    · next hdirectory => simp [hdirectory]
    · next hshort hslash hfile => simp [hnames, hslash, hfile, Nat.not_lt.mp hshort]

theorem renamedPlace_eq_ok_iff :
    tree.renamedPlace path = .ok place ↔
      ∃ directory name, tree.locateLast path = .ok (directory, some name) ∧
        name ≠ "." ∧ name ≠ ".." ∧ name.utf8ByteSize ≤ maxNameLength ∧
        path.endsWithSlash = false ∧ tree.entry? (directory ++ [name]) ≠ some .directory ∧
        directory ++ [name] = place := by
  unfold renamedPlace
  rw [FirstError.bind_eq_ok_iff]
  constructor
  · rintro ⟨⟨directory, last⟩, hlast, hinside⟩
    obtain ⟨name, rfl, hname⟩ := placeInside_eq_ok_iff.mp hinside
    exact ⟨directory, name, hlast, hname⟩
  · rintro ⟨directory, name, hlast, hname⟩
    exact ⟨(directory, some name), hlast, placeInside_eq_ok_iff.mpr ⟨name, rfl, hname⟩⟩

/-- The place that a file takes when it is put where a path leads: another file has to be written
beside it first. -/
def replacedPlace (tree : Tree) (path : Path) : Except IoError Location := do
  let _ ← tree.besidePlace path
  tree.renamedPlace path

/-- A file never takes the place of a directory. -/
theorem ne_directory_of_replacedPlace (hreplaced : tree.replacedPlace path = .ok place) :
    place ≠ [] ∧ tree.entry? place ≠ some .directory := by
  obtain ⟨beside, -, hrenamed⟩ := FirstError.bind_eq_ok_iff.mp hreplaced
  obtain ⟨directory, name, -, -, -, -, -, hfile, rfl⟩ := renamedPlace_eq_ok_iff.mp hrenamed
  exact ⟨by simp, hfile⟩

theorem eq_place_of_replacedPlace (hfree : tree.LinkFree) (habsolute : path.isAbsolute)
    (hreplaced : tree.replacedPlace path = .ok place) : place = path.place := by
  obtain ⟨beside, -, hrenamed⟩ := FirstError.bind_eq_ok_iff.mp hreplaced
  obtain ⟨directory, name, hlast, hhere, hup, -, -, -, rfl⟩ :=
    renamedPlace_eq_ok_iff.mp hrenamed
  exact concat_eq_place hfree habsolute hhere hup hlast

/-! ## Reading -/

theorem readText_eq_ok_iff {source : String} :
    tree.readText path = .ok source ↔
      ∃ place mode, tree.locate path = .ok place ∧
        tree.entry? place = some (.file (.text source) mode) := by
  unfold readText
  rw [FirstError.bind_eq_ok_iff]
  constructor
  · rintro ⟨place, hlocate, hread⟩
    split at hread
    · next value mode hentry =>
      obtain rfl : value = source := Except.ok.inj hread
      exact ⟨place, mode, hlocate, hentry⟩
    all_goals exact absurd hread (FirstError.throw_ne_ok _ _)
  · rintro ⟨place, mode, hlocate, hentry⟩
    refine ⟨place, hlocate, ?_⟩
    rw [hentry]
    rfl

theorem mode_of_locate {content : Content} {mode : Nat} (hlocate : tree.locate path = .ok place)
    (hentry : tree.entry? place = some (.file content mode)) : tree.mode? path = some mode := by
  unfold Tree.mode?
  rw [hlocate]
  simp only [hentry]

namespace SameOutline

theorem locateLast_eq (h : a.SameOutline b) : a.locateLast path = b.locateLast path := by
  unfold locateLast
  rw [h.walkAll_eq]
  simp only [ne_eq, h.eq_directory_iff]

theorem replacedPlace_eq (h : a.SameOutline b) : a.replacedPlace path = b.replacedPlace path := by
  have hinside : ∀ directory last,
      a.placeInside path directory last = b.placeInside path directory last := by
    intro directory last
    unfold placeInside
    simp only [h.eq_directory_iff]
  unfold replacedPlace besidePlace renamedPlace
  simp only [h.locate_eq, h.locateLast_eq, hinside, ne_eq, h.eq_directory_iff]

theorem readText_eq (h : a.SameOutline b)
    (hsame : ∀ place, a.locate path = .ok place → a.entry? place = b.entry? place) :
    a.readText path = b.readText path := by
  unfold readText
  rw [← h.locate_eq]
  cases hlocate : a.locate path with
  | error error => rfl
  | ok place => simp only [FirstError.bind_ok, hsame place hlocate]

end SameOutline

/-! ## Directories -/

/-- Off some places nothing is different but that there are directories where nothing was. -/
def KeepsOff (before : Tree) (off : Location → Prop) (after : Tree) : Prop :=
  ∀ place, off place ∨ after.entry? place = before.entry? place ∨
    before.entry? place = none ∧ after.entry? place = some .directory

variable {off : Location → Prop}

namespace KeepsOff

theorem refl (tree : Tree) : tree.KeepsOff off tree := fun _ => Or.inr (Or.inl rfl)

theorem trans (hab : a.KeepsOff off b) (hbc : b.KeepsOff off c) : a.KeepsOff off c := by
  intro place
  rcases hab place with hoff | hsame | ⟨hnone, hdirectory⟩
  · exact Or.inl hoff
  · rcases hbc place with hoff | hsame' | ⟨hnone', hdirectory'⟩
    · exact Or.inl hoff
    · exact Or.inr (Or.inl (hsame'.trans hsame))
    · exact Or.inr (Or.inr ⟨hsame ▸ hnone', hdirectory'⟩)
  · rcases hbc place with hoff | hsame' | ⟨hnone', -⟩
    · exact Or.inl hoff
    · exact Or.inr (Or.inr ⟨hnone, hsame'.trans hdirectory⟩)
    · exact absurd (hdirectory.symm.trans hnone') (by simp)

theorem mono (h : a.KeepsOff off b) {more : Location → Prop}
    (hmore : ∀ place, off place → more place) :
    a.KeepsOff more b :=
  fun place => (h place).imp_left (hmore place)

theorem linkFree (h : a.KeepsOff (fun _ => False) b) (hfree : a.LinkFree) : b.LinkFree := by
  intro place target hlink
  rcases h place with hoff | hsame | ⟨-, hdirectory⟩
  · exact hoff
  · exact hfree place target (hsame ▸ hlink)
  · exact absurd (hdirectory.symm.trans hlink) (by simp)

/-- Off those places a file is the one that was there before. -/
theorem eq_of_file (h : a.KeepsOff off b) (hoff : ¬ off place) {content : Content} {mode : Nat}
    (hfile : b.entry? place = some (.file content mode)) :
    a.entry? place = some (.file content mode) := by
  rcases h place with hoff' | hsame | ⟨-, hdirectory⟩
  · exact absurd hoff' hoff
  · exact hsame ▸ hfile
  · exact absurd (hdirectory.symm.trans hfile) (by simp)

/-- Off those places a file stays. -/
theorem file_eq (h : a.KeepsOff off b) (hoff : ¬ off place) {content : Content} {mode : Nat}
    (hfile : a.entry? place = some (.file content mode)) :
    b.entry? place = some (.file content mode) := by
  rcases h place with hoff' | hsame | ⟨hnone, -⟩
  · exact absurd hoff' hoff
  · exact hsame.trans hfile
  · exact absurd (hnone.symm.trans hfile) (by simp)

end KeepsOff

theorem keepsOff_set (hoff : off place) : tree.KeepsOff off (tree.set place entry) := by
  intro other
  by_cases hother : other = place
  · exact Or.inl (hother ▸ hoff)
  · exact Or.inr (Or.inl (entry_set_of_ne hother))

/-- A directory that is made is put where nothing was. -/
theorem makeDirectory_eq_ok_iff :
    a.makeDirectory path = .ok b ↔
      ∃ directory name, a.locateLast path = .ok (directory, some name) ∧ name ≠ "." ∧ name ≠ ".." ∧
        name.utf8ByteSize ≤ maxNameLength ∧ a.entry? (directory ++ [name]) = none ∧
        a.set (directory ++ [name]) .directory = b := by
  unfold makeDirectory
  rw [FirstError.bind_eq_ok_iff]
  constructor
  · rintro ⟨⟨directory, last⟩, hlast, hmade⟩
    -- Refused in turn: no name at the end, `.`, `..`, a name that is too long, one that is taken.
    dsimp only at hmade
    split at hmade
    · exact absurd hmade (FirstError.throw_ne_ok _ _)
    · exact absurd hmade (FirstError.throw_ne_ok _ _)
    · exact absurd hmade (FirstError.throw_ne_ok _ _)
    next name hhere hup =>
    split at hmade
    · exact absurd hmade (FirstError.throw_ne_ok _ _)
    next hshort =>
    split at hmade
    · exact absurd hmade (FirstError.throw_ne_ok _ _)
    next hnone =>
    rw [Option.not_isSome_iff_eq_none] at hnone
    exact ⟨directory, name, hlast, hhere, hup, Nat.not_lt.mp hshort, hnone, Except.ok.inj hmade⟩
  · rintro ⟨directory, name, hlast, hhere, hup, hshort, hnone, rfl⟩
    refine ⟨(directory, some name), hlast, ?_⟩
    dsimp only
    split
    · next heq => exact absurd heq (by simp)
    · next heq => exact absurd (Option.some.inj heq) hhere
    · next heq => exact absurd (Option.some.inj heq) hup
    next found _ _ heq =>
    obtain rfl := Option.some.inj heq
    rw [if_neg (Nat.not_lt.mpr hshort), hnone]
    rfl

end Tree

end LintRepair
