import Mathlib.Data.List.Basic
import Mathlib.Tactic.Common
import LintRepair.Proofs.FirstError
import LintRepair.Proofs.Path.Lexical
import LintRepair.Proofs.Text.Encoding

/-!
# Walks in a tree

Without links a walk follows the text of its path, so all that the tree decides is whether it
arrives.  A place is `Reached` if the names on the way to it do lead there.  Every step of a walk
goes from a reached place to a reached place (`reached_step`), and hence a path that leads anywhere
leads to a place that is found under its own path as well (`canonical_of_locate`): whatever the
spelling, the file is the same and so is its canonical path.  Links may lead a walk anywhere, but
still from names to names (`isProper_of_walk`).

Two trees with the same outline have files and directories at the same places.  What the files hold
plays no part in a walk, so both trees are walked alike (`SameOutline.locate_eq`).
-/

namespace LintRepair

/-! ## Faults of paths -/

namespace Path

variable {path : Path}

theorem checkText_eq_ok_iff :
    path.checkText = .ok () ↔ '\x00' ∉ path.text.toList ∧ path.isEmpty = false := by
  unfold checkText
  split
  · next hend =>
    rw [List.contains_iff_mem] at hend
    simp [hend]
  · next hend =>
    rw [List.contains_iff_mem] at hend
    simp [hend]

theorem checkLength_eq_ok_iff :
    path.checkLength = .ok () ↔ path.text.utf8ByteSize ≤ maxPathLength := by
  unfold checkLength
  split
  · next hlong => simp [hlong]
  · next hshort => simp [Nat.not_lt.mp hshort]

theorem check_eq_ok_iff :
    path.check = .ok () ↔ path.checkText = .ok () ∧ path.checkLength = .ok () := by
  unfold check
  cases path.checkText with
  | error error => simp
  | ok value => simp

theorem byteCount_le_of_sublist {a b : List Char} (hsub : a.Sublist b) :
    Text.byteCount a ≤ Text.byteCount b := by
  induction hsub with
  | slnil => exact Nat.le_refl _
  | cons c _ ih => exact Nat.le_trans ih (Nat.le_add_left ..)
  | cons_cons c _ ih => exact Nat.add_le_add_left ih _

/-- The path of a place has no faults that another path there has not. -/
theorem check_path_place (habsolute : path.isAbsolute) (hcheck : path.check = .ok ()) :
    path.place.path.check = .ok () := by
  have hsub := text_path_place_sublist habsolute
  have hplace : path.place.path.isAbsolute :=
    rising_zero path.place ▸ isAbsolute_rising 0 path.place
  rw [check_eq_ok_iff, checkText_eq_ok_iff, checkLength_eq_ok_iff] at hcheck ⊢
  refine ⟨⟨fun hend => hcheck.1.1 (hsub.subset hend), isEmpty_of_isAbsolute hplace⟩, ?_⟩
  rw [← Text.byteCount_toList]
  exact Nat.le_trans (byteCount_le_of_sublist hsub) (by simpa using hcheck.2)

theorem checkText_rising {place : Location} (hcheck : place.path.checkText = .ok ()) (ups : Nat) :
    (rising ups place).checkText = .ok () := by
  rw [checkText_eq_ok_iff] at hcheck ⊢
  refine ⟨fun hend => hcheck.1 ?_, isEmpty_of_isAbsolute (isAbsolute_rising ups place)⟩
  rw [text_toList] at hend
  rcases mem_joinAtSlashes hend with hslash | ⟨piece, hpiece, hend⟩
  · exact absurd hslash (by decide)
  obtain ⟨step, hstep, rfl⟩ := List.mem_map.mp hpiece
  rcases mem_pieces_rising hstep with rfl | rfl | hname
  · exact absurd hend (by decide)
  · exact absurd hend (by decide)
  · refine subset_text ?_ hend
    cases place with
    | nil => exact absurd hname List.not_mem_nil
    | cons first rest => exact List.mem_cons_of_mem "" hname

end Path

namespace Tree

/-- There are no links. -/
def LinkFree (tree : Tree) : Prop :=
  ∀ place target, tree.entry? place ≠ some (.link target)

variable {tree a b : Tree} {followLast : Bool} {links : Nat} {current place : Location}
  {steps : List String} {name : String} {path : Path}

theorem linkFree_of_entries
    (hentries : ∀ entry ∈ tree.entries, (entry.2 matches .link _) = false) : tree.LinkFree := by
  intro place target hlink
  unfold Tree.entry? at hlink
  split at hlink
  · exact absurd hlink (by simp)
  · obtain ⟨entry, hfound, hentry⟩ := Option.map_eq_some_iff.mp hlink
    have hother := hentries entry (List.mem_of_find?_eq_some hfound)
    rw [hentry] at hother
    exact Bool.noConfusion hother

@[simp] theorem entry_root : tree.entry? [] = some .directory := rfl

/-! ## Steps -/

theorem walk_nil : tree.walk followLast links current [] = .ok current := by
  cases links <;> rfl

theorem walk_step (step : String) (rest : List String) :
    tree.walk followLast links current (step :: rest) =
      if tree.entry? current ≠ some .directory then .error ⟨current, .notDirectory⟩
      else if step = "." then tree.walk followLast links current rest
      else if step = ".." then tree.walk followLast links current.dropLast rest
      else if maxNameLength < step.utf8ByteSize then .error ⟨current, .nameTooLong⟩
      else
        match tree.entry? (current ++ [step]) with
        | none => .error ⟨current ++ [step], .notFound⟩
        | some (.link target) =>
            if rest.isEmpty && !followLast then .ok (current ++ [step])
            else
              match links with
              | 0 => .error ⟨current ++ [step], .tooManyLinks⟩
              | links + 1 =>
                  tree.walk followLast links
                    (if (Path.ofText target).isAbsolute then [] else (current ++ [step]).dropLast)
                    ((Path.ofText target).allSteps ++ rest)
        | some _ => tree.walk followLast links (current ++ [step]) rest := by
  cases links <;> rfl

/-- A step does not look at those that come after it. -/
theorem walk_cons (hfree : tree.LinkFree) (first : String) (rest : List String) :
    tree.walk followLast links current (first :: rest) =
      tree.walk followLast links current [first] >>= fun next =>
        tree.walk followLast links next rest := by
  rw [walk_step, walk_step]
  -- Only a link would hand the steps that are left to something else.
  split
  · rfl
  split
  · rw [walk_nil, FirstError.bind_ok]
  split
  · rw [walk_nil, FirstError.bind_ok]
  split
  · rfl
  split
  · rfl
  · next target hlink => exact absurd hlink (hfree _ _)
  · rw [walk_nil, FirstError.bind_ok]

theorem walk_append (hfree : tree.LinkFree) (front back : List String) :
    tree.walk followLast links current (front ++ back) =
      tree.walk followLast links current front >>= fun next =>
        tree.walk followLast links next back := by
  induction front generalizing current with
  | nil => rw [List.nil_append, walk_nil, FirstError.bind_ok]
  | cons first rest ih =>
      rw [List.cons_append, walk_cons hfree, walk_cons hfree first rest]
      cases tree.walk followLast links current [first] with
      | error obstacle => rfl
      | ok next => exact ih

/-- When a step arrives, and where. -/
theorem walk_singleton_eq_ok_iff (hfree : tree.LinkFree) :
    tree.walk followLast links current [name] = .ok place ↔
      tree.entry? current = some .directory ∧ place = current.step name ∧
        (name = "." ∨ name = ".." ∨
          name.utf8ByteSize ≤ maxNameLength ∧ tree.entry? (current ++ [name]) ≠ none) := by
  rw [walk_step]
  unfold Location.step
  split
  · next hother => simp [hother]
  next hdirectory =>
  -- In a directory: `.` stays, `..` leaves, and a name leads to what is there, which is no link.
  rw [not_not] at hdirectory
  split
  · next hhere =>
    rw [walk_nil, Except.ok.injEq]
    simp [hdirectory, hhere, eq_comm]
  split
  · next hhere hup =>
    rw [walk_nil, Except.ok.injEq]
    simp [hdirectory, hup, eq_comm]
  next hhere hup =>
  split
  · next hlong => simp [hhere, hup, Nat.not_le.mpr hlong]
  next hshort =>
  split
  · next hnone => simp [hhere, hup, hnone]
  · next target hlink => exact absurd hlink (hfree _ _)
  · next entry _ hentry =>
    rw [walk_nil, Except.ok.injEq]
    simp [hdirectory, hhere, hup, hentry, Nat.not_lt.mp hshort, eq_comm]

theorem eq_step_of_walk_singleton (hfree : tree.LinkFree)
    (hwalk : tree.walk followLast links current [name] = .ok place) :
    place = current.step name :=
  ((walk_singleton_eq_ok_iff hfree).mp hwalk).2.1

/-- A walk that arrives has followed the text. -/
theorem eq_foldl_of_walk (hfree : tree.LinkFree)
    (hwalk : tree.walk followLast links current steps = .ok place) :
    place = steps.foldl Location.step current := by
  induction steps generalizing current with
  | nil =>
      rw [walk_nil, Except.ok.injEq] at hwalk
      exact hwalk.symm
  | cons first rest ih =>
      rw [walk_cons hfree, FirstError.bind_eq_ok_iff] at hwalk
      obtain ⟨next, hfirst, hwalk⟩ := hwalk
      rw [List.foldl_cons, ← eq_step_of_walk_singleton hfree hfirst]
      exact ih hwalk

/-- A step looks at the place where it starts and at the one where it leads. -/
theorem walk_singleton_eq_of_agree (hfree : a.LinkFree)
    (hcurrent : b.entry? current = a.entry? current)
    (hnext : b.entry? (current.step name) = a.entry? (current.step name)) :
    b.walk followLast links current [name] = a.walk followLast links current [name] := by
  rw [walk_step, walk_step, hcurrent]
  unfold Location.step at hnext
  simp only [walk_nil]
  split
  · rfl
  split
  · rfl
  split
  · rfl
  -- Only a step by name looks at the place where it leads.
  next hhere hup =>
  rw [if_neg hhere, if_neg hup] at hnext
  rw [hnext]
  split
  · rfl
  cases hentry : a.entry? (current ++ [name]) with
  | none => rfl
  | some entry =>
      cases entry with
      | link target => exact absurd hentry (hfree _ _)
      | file content mode => rfl
      | directory => rfl

/-- A walk looks at the places where it comes to. -/
theorem walk_eq_of_agree {P : Location → Prop} (hfree : a.LinkFree) (hfree' : b.LinkFree)
    (hagree : ∀ place, P place → b.entry? place = a.entry? place)
    (hstep : ∀ place, P place → ∀ step ∈ steps, P (place.step step)) (hcurrent : P current) :
    b.walk followLast links current steps = a.walk followLast links current steps := by
  induction steps generalizing current with
  | nil => rw [walk_nil, walk_nil]
  | cons first rest ih =>
      have hnext : P (current.step first) := hstep current hcurrent first List.mem_cons_self
      rw [walk_cons hfree, walk_cons hfree',
        walk_singleton_eq_of_agree hfree (hagree _ hcurrent) (hagree _ hnext)]
      cases hfirst : a.walk followLast links current [first] with
      | error obstacle => rfl
      | ok next =>
          obtain rfl := eq_step_of_walk_singleton hfree hfirst
          have hrest : ∀ place, P place → ∀ step ∈ rest, P (place.step step) :=
            fun place hplace step hmem => hstep place hplace step (List.mem_cons_of_mem _ hmem)
          exact ih hrest hnext

/-! ## Reached places -/

/-- The names on the way to a place lead there. -/
def Reached (tree : Tree) (place : Location) : Prop :=
  tree.walk true maxLinks [] place = .ok place

theorem reached_nil : tree.Reached [] := walk_nil

theorem Reached.walk_concat (hfree : tree.LinkFree) (hproper : place.IsProper)
    (hreached : tree.Reached (place ++ [name])) :
    tree.Reached place ∧ tree.walk true maxLinks place [name] = .ok (place ++ [name]) := by
  unfold Reached at hreached ⊢
  rw [walk_append hfree, FirstError.bind_eq_ok_iff] at hreached
  obtain ⟨before, hbefore, hlast⟩ := hreached
  obtain rfl : before = place := by
    rw [eq_foldl_of_walk hfree hbefore, Location.foldl_step_names hproper, List.nil_append]
  exact ⟨hbefore, hlast⟩

theorem Reached.dropLast (hfree : tree.LinkFree) (hproper : place.IsProper)
    (hreached : tree.Reached place) : tree.Reached place.dropLast := by
  rcases List.eq_nil_or_concat place with rfl | ⟨front, last, rfl⟩
  · exact hreached
  · rw [List.concat_eq_append] at hproper hreached ⊢
    rw [List.dropLast_concat]
    have hfront : Location.IsProper front := fun name hname =>
      hproper name (List.mem_append_left _ hname)
    exact (hreached.walk_concat hfree hfront).1

theorem reached_step (hfree : tree.LinkFree) (hproper : current.IsProper)
    (hcurrent : tree.Reached current) (hwalk : tree.walk true maxLinks current [name] = .ok place) :
    tree.Reached place := by
  have hplace := eq_step_of_walk_singleton hfree hwalk
  unfold Location.step at hplace
  split at hplace
  · exact hplace ▸ hcurrent
  split at hplace
  · exact hplace ▸ hcurrent.dropLast hfree hproper
  · unfold Reached at hcurrent ⊢
    rw [hplace, walk_append hfree, hcurrent, FirstError.bind_ok, hwalk, hplace]

/-- Walks go from reached places to reached places. -/
theorem reached_walk (hfree : tree.LinkFree) (hempty : ∀ step ∈ steps, step ≠ "")
    (hslash : ∀ step ∈ steps, '/' ∉ step.toList) (hproper : current.IsProper)
    (hcurrent : tree.Reached current) (hwalk : tree.walk true maxLinks current steps = .ok place) :
    tree.Reached place := by
  induction steps generalizing current with
  | nil =>
      rw [walk_nil, Except.ok.injEq] at hwalk
      exact hwalk ▸ hcurrent
  | cons first rest ih =>
      rw [List.forall_mem_cons] at hempty hslash
      rw [walk_cons hfree, FirstError.bind_eq_ok_iff] at hwalk
      obtain ⟨next, hfirst, hwalk⟩ := hwalk
      have hnext : next.IsProper := by
        rw [eq_step_of_walk_singleton hfree hfirst]
        exact Location.isProper_foldl_step (List.forall_mem_singleton.mpr hempty.1)
          (List.forall_mem_singleton.mpr hslash.1) hproper
      exact ih hempty.2 hslash.2 hnext (reached_step hfree hproper hcurrent hfirst) hwalk

/-- Two dots lead nowhere at the root directory. -/
theorem walk_ups (ups : Nat) (steps : List String) :
    tree.walk followLast links [] (List.replicate ups ".." ++ steps) =
      tree.walk followLast links [] steps := by
  induction ups with
  | zero => rfl
  | succ ups ih =>
      rw [List.replicate_succ, List.cons_append, walk_step, if_neg (by simp),
        if_neg (by decide), if_pos rfl]
      exact ih

/-! ## Paths -/

theorem start_of_isAbsolute (habsolute : path.isAbsolute) : tree.start path = [] :=
  if_pos habsolute

theorem isProper_start (hworking : tree.workingDirectory.IsProper) (path : Path) :
    (tree.start path).IsProper := by
  unfold start
  split
  · exact Location.isProper_nil
  · exact hworking

theorem walkAll_eq_ok_iff :
    tree.walkAll path steps = .ok place ↔
      path.check = .ok () ∧ tree.walkFrom path steps = .ok place := by
  unfold walkAll
  cases path.check with
  | error error => simp
  | ok value => simp

theorem locate_eq_ok_iff :
    tree.locate path = .ok place ↔
      path.check = .ok () ∧ tree.walkFrom path path.allSteps = .ok place := by
  unfold locate
  rw [FirstError.mapError_eq_ok_iff, walkAll_eq_ok_iff]

theorem canonical_eq_ok_iff {result : Path} :
    tree.canonical path = .ok result ↔
      path.checkText = .ok () ∧ ∃ place, tree.walkFrom path path.allSteps = .ok place ∧
        place.path.checkLength = .ok () ∧ place.path = result := by
  unfold canonical
  cases path.checkText with
  | error error => simp
  | ok value =>
      cases tree.walkFrom path path.allSteps with
      | error obstacle => simp
      | ok place =>
          cases hlength : place.path.checkLength with
          | error error => simp [hlength]
          | ok value => simp [hlength, pure, Except.pure]

theorem eq_place_of_walkFrom (hfree : tree.LinkFree) (habsolute : path.isAbsolute)
    (hwalk : tree.walkFrom path path.allSteps = .ok place) : place = path.place := by
  unfold walkFrom at hwalk
  rw [start_of_isAbsolute habsolute] at hwalk
  rw [eq_foldl_of_walk hfree hwalk, Path.foldl_step_allSteps]

theorem eq_place_of_locate (hfree : tree.LinkFree) (habsolute : path.isAbsolute)
    (hlocate : tree.locate path = .ok place) : place = path.place :=
  eq_place_of_walkFrom hfree habsolute (locate_eq_ok_iff.mp hlocate).2

theorem eq_path_place_of_canonical (hfree : tree.LinkFree) (habsolute : path.isAbsolute)
    {result : Path} (hcanonical : tree.canonical path = .ok result) :
    result = path.place.path := by
  obtain ⟨-, place, hwalk, -, rfl⟩ := canonical_eq_ok_iff.mp hcanonical
  rw [eq_place_of_walkFrom hfree habsolute hwalk]

theorem walk_allSteps_rising (ups : Nat) (hproper : place.IsProper) :
    tree.walk followLast links [] (Path.rising ups place).allSteps =
      tree.walk followLast links [] place := by
  rcases Path.rising_eq_root_or_pieces_rising ups place with ⟨hroot, hnil⟩ | hpieces
  · have hsteps : Path.root.allSteps = ["."] := rfl
    rw [hroot, (List.append_eq_nil_iff.mp hnil).2, hsteps, walk_nil, walk_step, if_neg (by simp),
      if_pos rfl, walk_nil]
  · have hends : (Path.rising ups place).endsWithSlash = false := by
      unfold Path.endsWithSlash
      rw [hpieces]
      cases hall : List.replicate ups ".." ++ place with
      | nil => rfl
      | cons first rest =>
          -- The last piece is a step, and steps are not empty.
          have hlast : (first :: rest).getLast (List.cons_ne_nil _ _) ≠ "" := by
            have hsteps := Path.steps_rising ups hproper
            rw [hall] at hsteps
            have hmem : (first :: rest).getLast (List.cons_ne_nil _ _) ∈
                (Path.rising ups place).steps := by
              rw [hsteps]
              exact List.getLast_mem _
            exact Path.ne_empty_of_mem_steps hmem
          rw [List.getLast?_cons_cons, List.getLast?_eq_some_getLast (List.cons_ne_nil _ _)]
          simpa using hlast
    unfold Path.allSteps
    rw [hends, Path.steps_rising ups hproper, if_neg Bool.false_ne_true, List.append_nil, walk_ups]

theorem canonical_path_of_reached (hproper : place.IsProper) (hreached : tree.Reached place)
    (hcheck : place.path.check = .ok ()) : tree.canonical place.path = .ok place.path := by
  obtain ⟨htext, hlength⟩ := Path.check_eq_ok_iff.mp hcheck
  refine canonical_eq_ok_iff.mpr ⟨htext, place, ?_, hlength, rfl⟩
  have hwalk :
      tree.walk true maxLinks [] place.path.allSteps = tree.walk true maxLinks [] place := by
    rw [← Path.rising_zero, walk_allSteps_rising 0 hproper]
  unfold walkFrom
  rw [start_of_isAbsolute (Path.rising_zero place ▸ Path.isAbsolute_rising 0 place), hwalk]
  exact hreached

/-- Where a path leads there is a canonical path, and the place has no other one. -/
theorem canonical_of_locate (hfree : tree.LinkFree) (habsolute : path.isAbsolute)
    (hcut : path.IsCut) (hlocate : tree.locate path = .ok place) :
    tree.canonical place.path = .ok place.path := by
  have hplace := eq_place_of_locate hfree habsolute hlocate
  obtain ⟨hcheck, hwalk⟩ := locate_eq_ok_iff.mp hlocate
  subst hplace
  refine canonical_path_of_reached (Path.isProper_place hcut) ?_ ?_
  · -- The root directory is reached, and every step keeps that.
    unfold walkFrom at hwalk
    rw [start_of_isAbsolute habsolute] at hwalk
    refine reached_walk hfree ?_ ?_ Location.isProper_nil reached_nil hwalk
    · exact Path.forall_mem_allSteps (fun step => Path.ne_empty_of_mem_steps) (by decide)
    · refine Path.forall_mem_allSteps (fun step hstep => ?_) (by decide)
      exact hcut.no_slash step (List.mem_of_mem_filter hstep)
  · exact Path.check_path_place habsolute hcheck

/-- Leading up from the root directory changes nothing about where a path leads. -/
theorem canonical_rising (hproper : place.IsProper)
    {result : Path} (hcanonical : tree.canonical place.path = .ok result) (ups : Nat) :
    tree.canonical (Path.rising ups place) = .ok result := by
  rw [canonical_eq_ok_iff] at hcanonical ⊢
  refine ⟨Path.checkText_rising hcanonical.1 ups, ?_⟩
  have hwalk : tree.walkFrom (Path.rising ups place) (Path.rising ups place).allSteps =
      tree.walkFrom place.path place.path.allSteps := by
    unfold walkFrom
    rw [← Path.rising_zero, start_of_isAbsolute (Path.isAbsolute_rising ups place),
      start_of_isAbsolute (Path.isAbsolute_rising 0 place), walk_allSteps_rising ups hproper,
      walk_allSteps_rising 0 hproper]
  rw [hwalk]
  exact hcanonical.2

/-! ## Through links -/

/-- Links or not, a walk that starts at a proper place ends at one: the target of a link is cut at
its slashes like any other path. -/
theorem isProper_of_walk (hempty : ∀ step ∈ steps, step ≠ "")
    (hslash : ∀ step ∈ steps, '/' ∉ step.toList) (hproper : current.IsProper)
    (hwalk : tree.walk followLast links current steps = .ok place) : place.IsProper := by
  -- Outside on the links that may still be passed, inside on the steps up to the next link.
  induction links using Nat.strongRecOn generalizing current steps with
  | ind links ihLinks =>
  induction steps generalizing current with
  | nil =>
      rw [walk_nil, Except.ok.injEq] at hwalk
      exact hwalk ▸ hproper
  | cons step rest ihRest =>
      rw [List.forall_mem_cons] at hempty hslash
      rw [walk_step] at hwalk
      split at hwalk
      · exact absurd hwalk (by simp)
      split at hwalk
      · exact ihRest hempty.2 hslash.2 hproper hwalk
      split at hwalk
      · exact ihRest hempty.2 hslash.2 hproper.dropLast hwalk
      next hhere hup =>
      have hnext : Location.IsProper (current ++ [step]) :=
        hproper.concat ⟨hempty.1, hhere, hup, hslash.1⟩
      split at hwalk
      · exact absurd hwalk (by simp)
      split at hwalk
      · exact absurd hwalk (by simp)
      · next target hlink =>
        split at hwalk
        · rw [Except.ok.injEq] at hwalk
          exact hwalk ▸ hnext
        split at hwalk
        · exact absurd hwalk (by simp)
        · next fewer =>
          have htarget : ∀ step ∈ (Path.ofText target).allSteps, step ≠ "" ∧ '/' ∉ step.toList :=
            Path.forall_mem_allSteps
              (fun step hstep => ⟨Path.ne_empty_of_mem_steps hstep,
                (Path.isCut_ofText target).no_slash step (List.mem_of_mem_filter hstep)⟩)
              (by decide)
          refine ihLinks fewer (Nat.lt_succ_self fewer) ?_ ?_ ?_ hwalk
          · rw [List.forall_mem_append]
            exact ⟨fun step hstep => (htarget step hstep).1, hempty.2⟩
          · rw [List.forall_mem_append]
            exact ⟨fun step hstep => (htarget step hstep).2, hslash.2⟩
          · split
            · exact Location.isProper_nil
            · exact hnext.dropLast
      · exact ihRest hempty.2 hslash.2 hnext hwalk

/-- A canonical path consists of names, wherever its walk starts. -/
theorem exists_path_of_canonical (hstart : (tree.start path).IsProper) (hcut : path.IsCut)
    {result : Path} (hcanonical : tree.canonical path = .ok result) :
    ∃ place : Location, place.IsProper ∧ place.path = result := by
  obtain ⟨-, place, hwalk, -, hresult⟩ := canonical_eq_ok_iff.mp hcanonical
  unfold walkFrom at hwalk
  refine ⟨place, isProper_of_walk ?_ ?_ hstart hwalk, hresult⟩
  · exact Path.forall_mem_allSteps (fun step => Path.ne_empty_of_mem_steps) (by decide)
  · refine Path.forall_mem_allSteps (fun step hstep => ?_) (by decide)
    exact hcut.no_slash step (List.mem_of_mem_filter hstep)

/-! ## Outlines -/

end Tree

/-- What an entry is, whatever it holds. -/
def Entry.outline : Entry → Entry
  | .file .. => .file (.binary []) 0
  | .directory => .directory
  | .link target => .link target

namespace Tree

/-- Relative paths start at the same place, and there are entries of the same kind at the same
places, whatever the files hold. -/
structure SameOutline (a b : Tree) : Prop where
  start : a.workingDirectory = b.workingDirectory
  outline : ∀ place, (a.entry? place).map Entry.outline = (b.entry? place).map Entry.outline

namespace SameOutline

variable {a b : Tree} {followLast : Bool} {links : Nat} {current place : Location}
  {steps : List String} {path : Path}

theorem refl (tree : Tree) : tree.SameOutline tree := ⟨rfl, fun _ => rfl⟩

theorem symm (h : a.SameOutline b) : b.SameOutline a :=
  ⟨h.start.symm, fun place => (h.outline place).symm⟩

theorem trans {c : Tree} (hab : a.SameOutline b) (hbc : b.SameOutline c) : a.SameOutline c :=
  ⟨hab.start.trans hbc.start, fun place => (hab.outline place).trans (hbc.outline place)⟩

/-- Trees of one outline agree wherever the outline says it all. -/
theorem eq_iff (h : a.SameOutline b) {found : Option Entry}
    (hfound : ∀ value : Option Entry, value.map Entry.outline = found ↔ value = found)
    (place : Location) : a.entry? place = found ↔ b.entry? place = found := by
  rw [← hfound, h.outline place, hfound]

theorem eq_none_iff (h : a.SameOutline b) (place : Location) :
    a.entry? place = none ↔ b.entry? place = none :=
  h.eq_iff (fun _ => Option.map_eq_none_iff) place

theorem eq_directory_iff (h : a.SameOutline b) (place : Location) :
    a.entry? place = some .directory ↔ b.entry? place = some .directory := by
  refine h.eq_iff (fun value => ?_) place
  rcases value with - | - | - | - <;> simp [Entry.outline]

theorem eq_link_iff (h : a.SameOutline b) (place : Location) (target : String) :
    a.entry? place = some (.link target) ↔ b.entry? place = some (.link target) := by
  refine h.eq_iff (fun value => ?_) place
  rcases value with - | - | - | - <;> simp [Entry.outline]

theorem linkFree (h : a.SameOutline b) (hfree : a.LinkFree) : b.LinkFree := by
  intro place target hlink
  exact hfree place target ((h.eq_link_iff place target).mpr hlink)

theorem walkTo_eq (h : a.SameOutline b)
    (pass : Location → String → List String → Except Obstacle Location) :
    a.walkTo followLast pass current steps = b.walkTo followLast pass current steps := by
  induction steps generalizing current with
  | nil => rfl
  | cons step rest ih =>
      have hentry := h.outline (current ++ [step])
      rw [walkTo, walkTo, ih, ih, ih]
      simp only [ne_eq, h.eq_directory_iff]
      -- What is different in the entries is what a file holds, and a walk goes past that.
      split
      · rfl
      split
      · rfl
      split
      · rfl
      split
      · rfl
      cases ha : a.entry? (current ++ [step]) with
      | none => rw [(h.eq_none_iff _).mp ha]
      | some entry =>
          cases hb : b.entry? (current ++ [step]) with
          | none => exact absurd ((h.eq_none_iff _).mpr hb) (by simp [ha])
          | some entry' =>
              rw [ha, hb, Option.map_some, Option.map_some, Option.some.injEq] at hentry
              cases entry <;> cases entry' <;> simp_all [Entry.outline]

theorem walk_eq (h : a.SameOutline b) :
    a.walk followLast links current steps = b.walk followLast links current steps := by
  induction links generalizing current steps with
  | zero => exact h.walkTo_eq _
  | succ links ih =>
      rw [walk, walk, h.walkTo_eq]
      simp only [ih]

theorem walkAll_eq (h : a.SameOutline b) : a.walkAll path steps = b.walkAll path steps := by
  have hstart : a.start path = b.start path := by
    unfold Tree.start
    rw [h.start]
  unfold walkAll walkFrom
  rw [hstart, h.walk_eq]

theorem locate_eq (h : a.SameOutline b) : a.locate path = b.locate path := by
  unfold locate
  rw [h.walkAll_eq]

end SameOutline

end Tree

end LintRepair
