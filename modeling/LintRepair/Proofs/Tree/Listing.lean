import Mathlib.Data.List.Nodup
import Mathlib.Tactic.Common
import LintRepair.Proofs.Path.FileName
import LintRepair.Proofs.Tree.Write

/-!
# Directories in any order

The entries of a tree come in the order in which its directories list them, and nothing but listing
a directory may depend on it.  As long as everything is listed once (`ListsOnce`), what there is at
a place can be told without the order (`entry_eq_some_iff`), so a rearranged tree shows the same at
every place (`Rearranges.entry_eq`), and paths lead to the same places in it and read the same
there.  Of a directory, what is the same is what is listed and not where (`mem_children_iff`).

What a directory lists under a name is what the path of the directory with the name behind it leads
to, if it is a file (`locate_join`).  This holds for any way to the directory, links on it included.
-/

namespace LintRepair.Tree

variable {tree a b : Tree} {current place directory : Location} {name : String} {entry : Entry}
  {child : String × Entry} {path : Path} {links : Nat} {steps last back : List String}
  {content : Content} {mode : Nat}

/-- Everything is listed once. -/
def ListsOnce (tree : Tree) : Prop :=
  (tree.entries.map Prod.fst).Nodup

instance : Decidable tree.ListsOnce :=
  inferInstanceAs (Decidable (List.Nodup _))

/-! ## Places -/

theorem entry_eq_some_iff (honce : tree.ListsOnce) (hplace : place ≠ []) :
    tree.entry? place = some entry ↔ (place, entry) ∈ tree.entries := by
  unfold entry?
  rw [if_neg hplace, Option.map_eq_some_iff]
  constructor
  · intro h
    obtain ⟨found, hfound, rfl⟩ := h
    obtain rfl : found.1 = place := by simpa using List.find?_some hfound
    exact List.mem_of_find?_eq_some hfound
  · -- An entry that is listed is found, because no other one is listed for its place.
    intro hmem
    cases hfound : tree.entries.find? fun other => other.1 == place with
    | none => exact absurd (List.find?_eq_none.mp hfound _ hmem) (by simp)
    | some found =>
        have hplaces : found.1 = place := by simpa using List.find?_some hfound
        have hsame : found = (place, entry) :=
          List.inj_on_of_nodup_map honce (List.mem_of_find?_eq_some hfound) hmem hplaces
        exact ⟨found, rfl, congrArg Prod.snd hsame⟩

/-! ## Children -/

/-- What is directly inside a directory has one more name in its place. -/
theorem child_eq_some_iff {found : Location × Entry} :
    (match found with
      | (place, entry) =>
          match place.getLast? with
          | some name => if place.dropLast = directory then some (name, entry) else none
          | none => none) = some child ↔ found = (directory ++ [child.1], child.2) := by
  obtain ⟨place, entry⟩ := found
  rw [Prod.mk.injEq]
  dsimp only
  cases hlast : place.getLast? with
  | none => simp [List.getLast?_eq_none_iff.mp hlast]
  | some name =>
      -- Cutting off the last name and adding it again are inverse to each other.
      obtain ⟨front, rfl⟩ := List.getLast?_eq_some_iff.mp hlast
      rw [List.dropLast_concat]
      dsimp only
      constructor
      · intro h
        split at h
        · next hfront =>
          obtain rfl := Option.some.inj h
          exact ⟨by rw [hfront], rfl⟩
        · cases h
      · intro h
        obtain ⟨hplace, rfl⟩ := h
        obtain ⟨rfl, hname⟩ := List.append_inj' hplace rfl
        rw [if_pos rfl, List.singleton_inj.mp hname]

theorem mem_children :
    child ∈ tree.children directory ↔ (directory ++ [child.1], child.2) ∈ tree.entries := by
  unfold children
  rw [List.mem_filterMap]
  constructor
  · intro h
    obtain ⟨found, hmem, hchild⟩ := h
    rwa [← child_eq_some_iff.mp hchild]
  · intro hmem
    exact ⟨_, hmem, child_eq_some_iff.mpr rfl⟩

/-- A directory lists what there is at the places one name farther. -/
theorem mem_children_iff (honce : tree.ListsOnce) :
    child ∈ tree.children directory ↔ tree.entry? (directory ++ [child.1]) = some child.2 := by
  rw [mem_children, entry_eq_some_iff honce (by simp)]

/-- A directory lists no name twice. -/
theorem nodup_children (honce : tree.ListsOnce) :
    ((tree.children directory).map Prod.fst).Nodup := by
  unfold ListsOnce List.Nodup at honce
  unfold List.Nodup children
  rw [List.pairwise_map] at honce ⊢
  refine honce.filterMap _ ?_
  intro first second hne child hchild child' hchild' hname
  rw [child_eq_some_iff.mp hchild, child_eq_some_iff.mp hchild', hname] at hne
  exact hne rfl

/-! ## Another order -/

/-- The same entries in any order, and the same place to start from. -/
structure Rearranges (a b : Tree) : Prop where
  entries : a.entries.Perm b.entries
  start : a.workingDirectory = b.workingDirectory

namespace Rearranges

theorem listsOnce (h : a.Rearranges b) (honce : a.ListsOnce) : b.ListsOnce :=
  (h.entries.map Prod.fst).nodup_iff.mp honce

theorem entry_eq (h : a.Rearranges b) (honce : a.ListsOnce) (place : Location) :
    a.entry? place = b.entry? place := by
  by_cases hplace : place = []
  · unfold entry?
    rw [if_pos hplace, if_pos hplace]
  · refine Option.ext fun entry => ?_
    rw [entry_eq_some_iff honce hplace, entry_eq_some_iff (h.listsOnce honce) hplace,
      h.entries.mem_iff]

theorem sameOutline (h : a.Rearranges b) (honce : a.ListsOnce) : a.SameOutline b where
  start := h.start
  outline place := by rw [h.entry_eq honce]

theorem locate_eq (h : a.Rearranges b) (honce : a.ListsOnce) : a.locate path = b.locate path :=
  (h.sameOutline honce).locate_eq

theorem readText_eq (h : a.Rearranges b) (honce : a.ListsOnce) :
    a.readText path = b.readText path :=
  (h.sameOutline honce).readText_eq fun place _ => h.entry_eq honce place

end Rearranges

/-! ## Inside a directory -/

theorem walk_append_of_pass (hlast : last = [] ∨ last = ["."])
    (hback : tree.walk true links directory back = .ok place)
    (hpass : ∀ fewer, links = fewer + 1 → ∀ {current steps},
      tree.walk true fewer current (steps ++ last) = .ok directory →
        tree.walk true fewer current (steps ++ back) = .ok place)
    (hwalk : tree.walk true links current (steps ++ last) = .ok directory) :
    tree.walk true links current (steps ++ back) = .ok place := by
  -- Induction on the steps to the directory.  Up to the first link both walks take the same way,
  -- and from there on `hpass` says the same with one link less.
  induction steps generalizing current with
  | nil =>
      obtain rfl : current = directory := by
        obtain rfl | rfl := hlast
        · exact Except.ok.inj (walk_nil.symm.trans hwalk)
        · rw [List.nil_append, walk_step] at hwalk
          split at hwalk
          · cases hwalk
          · rw [if_pos rfl, walk_nil] at hwalk
            exact Except.ok.inj hwalk
      exact hback
  | cons step rest ih =>
      rw [List.cons_append, walk_step] at hwalk ⊢
      split at hwalk
      · cases hwalk
      next hentry =>
      rw [if_neg hentry]
      split at hwalk
      · next hhere => rw [if_pos hhere]; exact ih hwalk
      next hhere =>
      rw [if_neg hhere]
      split at hwalk
      · next hup => rw [if_pos hup]; exact ih hwalk
      next hup =>
      rw [if_neg hup]
      split at hwalk
      · cases hwalk
      next hlong =>
      rw [if_neg hlong]
      cases hfound : tree.entry? (current ++ [step]) with
      | none => simp [hfound] at hwalk
      | some entry =>
          cases entry with
          | file content mode => simp only [hfound] at hwalk ⊢; exact ih hwalk
          | directory => simp only [hfound] at hwalk ⊢; exact ih hwalk
          | link target =>
              simp only [hfound, Bool.not_true, Bool.and_false, Bool.false_eq_true, if_false]
                at hwalk ⊢
              -- The steps of the target take the place of the link, before those that are left.
              cases links with
              | zero => cases hwalk
              | succ fewer =>
                  dsimp only at hwalk ⊢
                  rw [← List.append_assoc] at hwalk ⊢
                  exact hpass fewer rfl hwalk

theorem walk_append_of_walk (hlast : last = [] ∨ last = ["."])
    (hback : ∀ links, tree.walk true links directory back = .ok place)
    (hwalk : tree.walk true links current (steps ++ last) = .ok directory) :
    tree.walk true links current (steps ++ back) = .ok place := by
  -- Induction on the links that may be passed; each one replaces the whole way by another one.
  induction links generalizing current steps with
  | zero => exact walk_append_of_pass hlast (hback 0) (fun fewer h => by cases h) hwalk
  | succ links ih =>
      refine walk_append_of_pass hlast (hback _) ?_ hwalk
      intro fewer hfewer current steps hwalk
      obtain rfl := Nat.succ.inj hfewer
      exact ih hwalk

/-- A path to a directory and the name of a file in it lead to the file. -/
theorem locate_join (hlocate : tree.locate path = .ok directory)
    (hdirectory : tree.entry? directory = some .directory)
    (hname : Path.componentOf? name = some (.name name))
    (hlength : name.utf8ByteSize ≤ maxNameLength)
    (hcheck : (path.join ⟨[name]⟩).check = .ok ())
    (hentry : tree.entry? (directory ++ [name]) = some (.file content mode)) :
    tree.locate (path.join ⟨[name]⟩) = .ok (directory ++ [name]) := by
  obtain ⟨hempty, hhere, hup⟩ := Path.componentOf_eq_name_iff.mp hname
  obtain ⟨hpath, hwalk⟩ := locate_eq_ok_iff.mp hlocate
  have hsome := (Path.checkText_eq_ok_iff.mp (Path.check_eq_ok_iff.mp hpath).1).2
  -- From the directory the name is one step to a file, which passes no link.
  have hback : ∀ links, tree.walk true links directory [name] = .ok (directory ++ [name]) := by
    intro links
    rw [walk_step, if_neg (by simp [hdirectory]), if_neg hhere, if_neg hup,
      if_neg (Nat.not_lt.mpr hlength), hentry]
    exact walk_nil
  refine locate_eq_ok_iff.mpr ⟨hcheck, ?_⟩
  unfold walkFrom start at hwalk ⊢
  rw [Path.allSteps_join_name hsome hempty, Path.isAbsolute_join_name name hsome]
  rw [Path.allSteps] at hwalk
  refine walk_append_of_walk ?_ hback hwalk
  split
  · exact Or.inr rfl
  · exact Or.inl rfl

end LintRepair.Tree
