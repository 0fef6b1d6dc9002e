import Mathlib.Data.List.Basic
import Mathlib.Tactic.Common
import LintRepair.Path.Normal
import LintRepair.Tree.Walk

/-!
# Where the text of a path leads

Without links a path leads where its text says: a name leads down, two dots lead up and a dot leads
nowhere.  `Path.place` is the place so found, for paths that start at the root directory.  The
normal form of such a path is the path of its place behind as many leading `..` as the text has in
excess (`normalized_eq_rising`); they lead nowhere either.

Texts and pieces are two views of one path, and a place is a sublist of the pieces of every path
that leads there.  So its own path is no longer than any of these and has no characters that they
lack (`text_path_place_sublist`), which is how the limits on paths carry over.
-/

namespace LintRepair

/-! ## Slashes -/

theorem joinAtSlashes_cons {piece : List Char} {pieces : List (List Char)} (hne : pieces ≠ []) :
    joinAtSlashes (piece :: pieces) = piece ++ '/' :: joinAtSlashes pieces := by
  cases pieces with
  | nil => exact absurd rfl hne
  | cons next rest => rfl

theorem joinAtSlashes_sublist {a b : List (List Char)} (hsub : a.Sublist b) :
    (joinAtSlashes a).Sublist (joinAtSlashes b) := by
  induction hsub with
  | slnil => exact List.Sublist.refl _
  -- A piece goes with the slash behind it, which the last piece does not have.
  | @cons a b piece _ ih =>
      by_cases hb : b = []
      · subst hb
        exact ih.trans (List.nil_sublist _)
      · rw [joinAtSlashes_cons hb]
        exact (ih.cons '/').trans (List.sublist_append_right piece _)
  | @cons_cons a b piece hsub ih =>
      by_cases ha : a = []
      · subst ha
        by_cases hb : b = []
        · subst hb
          exact List.Sublist.refl _
        · rw [joinAtSlashes_cons hb]
          exact List.sublist_append_left piece _
      · have hb : b ≠ [] := fun hb => ha (List.sublist_nil.mp (hb ▸ hsub))
        rw [joinAtSlashes_cons ha, joinAtSlashes_cons hb]
        exact (ih.cons_cons '/').append_left piece

theorem mem_joinAtSlashes {c : Char} {pieces : List (List Char)} (hc : c ∈ joinAtSlashes pieces) :
    c = '/' ∨ ∃ piece ∈ pieces, c ∈ piece := by
  induction pieces with
  | nil => exact absurd hc List.not_mem_nil
  | cons piece rest ih =>
      by_cases hrest : rest = []
      · subst hrest
        exact Or.inr ⟨piece, List.mem_cons_self, hc⟩
      · rw [joinAtSlashes_cons hrest, List.mem_append, List.mem_cons] at hc
        rcases hc with hpiece | hslash | hmem
        · exact Or.inr ⟨piece, List.mem_cons_self, hpiece⟩
        · exact Or.inl hslash
        · rcases ih hmem with hslash | ⟨other, hother, hc⟩
          · exact Or.inl hslash
          · exact Or.inr ⟨other, List.mem_cons_of_mem _ hother, hc⟩

theorem slash_notMem_of_mem_cutAtSlashes {chars piece : List Char}
    (hpiece : piece ∈ cutAtSlashes chars) : '/' ∉ piece := by
  induction chars generalizing piece with
  | nil =>
      rw [List.mem_singleton.mp hpiece]
      exact List.not_mem_nil
  | cons c rest ih =>
      obtain ⟨first, pieces, hcut⟩ := List.exists_cons_of_ne_nil (cutAtSlashes_ne_nil rest)
      rw [hcut] at ih
      by_cases hc : c = '/'
      · rw [cutAtSlashes, if_pos hc, hcut, List.mem_cons] at hpiece
        rcases hpiece with rfl | hpiece
        · exact List.not_mem_nil
        · exact ih hpiece
      · rw [cutAtSlashes, if_neg hc, hcut, List.mem_cons] at hpiece
        rcases hpiece with rfl | hpiece
        · rw [List.mem_cons, not_or]
          exact ⟨Ne.symm hc, ih List.mem_cons_self⟩
        · exact ih (List.mem_cons_of_mem _ hpiece)

/-! ## Pieces of a text -/

namespace Path

/-- The pieces are what a text has between its slashes. -/
structure IsCut (path : Path) : Prop where
  ne_nil : path.pieces ≠ []
  no_slash : ∀ piece ∈ path.pieces, '/' ∉ piece.toList

theorem isCut_ofText (text : String) : (ofText text).IsCut where
  ne_nil := by
    unfold ofText
    rw [Ne, List.map_eq_nil_iff]
    exact cutAtSlashes_ne_nil _
  no_slash := by
    intro piece hpiece
    obtain ⟨chars, hchars, rfl⟩ := List.mem_map.mp hpiece
    rw [String.toList_ofList]
    exact slash_notMem_of_mem_cutAtSlashes hchars

/-- The pieces come back from the text. -/
theorem ofText_text {path : Path} (hcut : path.IsCut) : ofText path.text = path := by
  have hpieces : cutAtSlashes (joinAtSlashes (path.pieces.map String.toList)) =
      path.pieces.map String.toList := by
    refine cutAtSlashes_joinAtSlashes ?_ ?_
    · rw [Ne, List.map_eq_nil_iff]
      exact hcut.ne_nil
    · rw [List.forall_mem_map]
      exact hcut.no_slash
  unfold ofText Path.text
  rw [String.toList_ofList, hpieces, List.map_map]
  simp

theorem text_toList (path : Path) :
    path.text.toList = joinAtSlashes (path.pieces.map String.toList) :=
  String.toList_ofList

theorem subset_text {path : Path} {piece : String} (hpiece : piece ∈ path.pieces) :
    piece.toList ⊆ path.text.toList := by
  have hmem : piece.toList ∈ path.pieces.map String.toList := List.mem_map_of_mem hpiece
  rw [text_toList]
  exact (joinAtSlashes_sublist (List.singleton_sublist.mpr hmem)).subset

theorem exists_pieces_of_isAbsolute {path : Path} (habsolute : path.isAbsolute) :
    ∃ second rest, path.pieces = "" :: second :: rest := by
  unfold isAbsolute at habsolute
  split at habsolute
  · next second rest hpieces => exact ⟨second, rest, hpieces⟩
  · exact absurd habsolute Bool.false_ne_true

theorem isEmpty_of_isAbsolute {path : Path} (habsolute : path.isAbsolute) :
    path.isEmpty = false := by
  obtain ⟨second, rest, hpieces⟩ := exists_pieces_of_isAbsolute habsolute
  unfold isEmpty
  simp [hpieces]

theorem isAbsolute_of_pieces {path : Path} {second : String} {rest : List String}
    (hpieces : path.pieces = "" :: second :: rest) : path.isAbsolute := by
  unfold isAbsolute
  rw [hpieces]
  rfl

end Path

/-- A text that can be the name of an entry. -/
structure IsName (name : String) : Prop where
  ne_empty : name ≠ ""
  ne_here : name ≠ "."
  ne_up : name ≠ ".."
  no_slash : '/' ∉ name.toList

instance (name : String) : Decidable (IsName name) :=
  decidable_of_iff (name ≠ "" ∧ name ≠ "." ∧ name ≠ ".." ∧ '/' ∉ name.toList)
    ⟨fun ⟨hempty, hhere, hup, hslash⟩ => ⟨hempty, hhere, hup, hslash⟩,
      fun hname => ⟨hname.ne_empty, hname.ne_here, hname.ne_up, hname.no_slash⟩⟩

namespace Location

/-- All on the way are names. -/
def IsProper (location : Location) : Prop :=
  ∀ name ∈ location, IsName name

instance (location : Location) : Decidable location.IsProper :=
  inferInstanceAs (Decidable (∀ name ∈ location, IsName name))

theorem isProper_nil : IsProper [] := by
  intro name hname
  exact absurd hname List.not_mem_nil

theorem IsProper.concat {location : Location} {name : String} (hproper : location.IsProper)
    (hname : IsName name) : IsProper (location ++ [name]) := by
  intro other hother
  rcases List.mem_append.mp hother with hother | hother
  · exact hproper other hother
  · exact List.mem_singleton.mp hother ▸ hname

theorem IsProper.dropLast {location : Location} (hproper : location.IsProper) :
    IsProper location.dropLast :=
  fun name hname => hproper name (List.dropLast_subset _ hname)

/-- Where one more step leads by its text. -/
def step (current : Location) (step : String) : Location :=
  if step = "." then current else if step = ".." then current.dropLast else current ++ [step]

@[simp] theorem step_here (current : Location) : current.step "." = current := rfl

@[simp] theorem step_up (current : Location) : current.step ".." = current.dropLast := rfl

theorem step_of_ne {name : String} (hhere : name ≠ ".") (hup : name ≠ "..") (current : Location) :
    current.step name = current ++ [name] := by
  unfold step
  rw [if_neg hhere, if_neg hup]

theorem step_name {name : String} (hname : IsName name) (current : Location) :
    current.step name = current ++ [name] :=
  step_of_ne hname.ne_here hname.ne_up current

/-- The number of steps of a way that lead up where the way is at the root directory. -/
def excess : Location → List String → Nat
  | _, [] => 0
  | current, step :: rest =>
      (if step = ".." ∧ current = [] then 1 else 0) + excess (current.step step) rest

theorem excess_names {names : Location} (hnames : names.IsProper) (current : Location) :
    excess current names = 0 := by
  induction names generalizing current with
  | nil => rfl
  | cons name rest ih =>
      have hname := hnames name List.mem_cons_self
      have hrest : IsProper rest := fun other hother => hnames other (List.mem_cons_of_mem _ hother)
      rw [excess, ih hrest, if_neg fun h => hname.ne_up h.1]

theorem excess_ups (ups : Nat) (rest : List String) :
    excess [] (List.replicate ups ".." ++ rest) = ups + excess [] rest := by
  induction ups with
  | zero => rw [List.replicate_zero, List.nil_append, Nat.zero_add]
  | succ ups ih =>
      rw [List.replicate_succ, List.cons_append, excess, if_pos ⟨rfl, rfl⟩, step_up,
        List.dropLast_nil, ih]
      omega

theorem foldl_step_names {names : Location} (hnames : names.IsProper) (current : Location) :
    names.foldl step current = current ++ names := by
  induction names generalizing current with
  | nil => rw [List.foldl_nil, List.append_nil]
  | cons name rest ih =>
      have hrest : IsProper rest := fun other hother => hnames other (List.mem_cons_of_mem _ hother)
      rw [List.foldl_cons, step_name (hnames name List.mem_cons_self), ih hrest,
        List.append_assoc, List.singleton_append]

theorem foldl_step_ups (ups : Nat) : (List.replicate ups "..").foldl step [] = [] := by
  induction ups with
  | zero => rfl
  | succ ups ih => exact ih

theorem foldl_step_sublist (steps : List String) (current : Location) :
    (steps.foldl step current).Sublist (current ++ steps) := by
  induction steps generalizing current with
  | nil =>
      rw [List.append_nil]
      exact List.Sublist.refl _
  | cons first rest ih =>
      have hstep : (current.step first).Sublist (current ++ [first]) := by
        unfold step
        split
        · exact List.sublist_append_left ..
        · split
          · exact (List.dropLast_sublist current).trans (List.sublist_append_left ..)
          · exact List.Sublist.refl _
      rw [List.foldl_cons, List.append_cons]
      exact (ih (current.step first)).trans (hstep.append_right rest)

theorem isProper_foldl_step {steps : List String} (hempty : ∀ step ∈ steps, step ≠ "")
    (hslash : ∀ step ∈ steps, '/' ∉ step.toList) {current : Location}
    (hcurrent : current.IsProper) :
    IsProper (steps.foldl step current) := by
  induction steps generalizing current with
  | nil => exact hcurrent
  | cons first rest ih =>
      rw [List.forall_mem_cons] at hempty hslash
      refine ih hempty.2 hslash.2 ?_
      unfold step
      split
      · exact hcurrent
      · next hhere =>
        split
        · exact hcurrent.dropLast
        · next hup => exact hcurrent.concat ⟨hempty.1, hhere, hup, hslash.1⟩

end Location

/-! ## Places -/

namespace Path

/-- Where a path from the root directory leads by its text. -/
def place (path : Path) : Location :=
  path.steps.foldl Location.step []

theorem ne_empty_of_mem_steps {path : Path} {step : String} (hstep : step ∈ path.steps) :
    step ≠ "" := by
  have hkept := (List.mem_filter.mp hstep).2
  simpa using hkept

theorem forall_mem_allSteps {path : Path} {P : String → Prop} (hsteps : ∀ step ∈ path.steps, P step)
    (hhere : P ".") : ∀ step ∈ path.allSteps, P step := by
  unfold allSteps
  rw [List.forall_mem_append]
  refine ⟨hsteps, ?_⟩
  split
  · exact List.forall_mem_singleton.mpr hhere
  · exact List.forall_mem_nil P

theorem isProper_place {path : Path} (hcut : path.IsCut) : path.place.IsProper := by
  refine Location.isProper_foldl_step (fun step => ne_empty_of_mem_steps) ?_ Location.isProper_nil
  intro step hstep
  exact hcut.no_slash step (List.mem_of_mem_filter hstep)

/-- A slash at the end does not lead anywhere else. -/
theorem foldl_step_allSteps (path : Path) : path.allSteps.foldl Location.step [] = path.place := by
  unfold allSteps place
  rw [List.foldl_append]
  split
  · rw [List.foldl_cons, List.foldl_nil, Location.step_here]
  · rfl

/-- The path of a place has the characters of any path that leads there, in their order. -/
theorem text_path_place_sublist {path : Path} (habsolute : path.isAbsolute) :
    path.place.path.text.toList.Sublist path.text.toList := by
  obtain ⟨second, rest, hpieces⟩ := exists_pieces_of_isAbsolute habsolute
  have hsteps : path.place.Sublist (second :: rest) := by
    have hfold := Location.foldl_step_sublist path.steps []
    rw [List.nil_append] at hfold
    refine hfold.trans ?_
    unfold steps
    rw [hpieces, List.filter_cons_of_neg (by simp)]
    exact List.filter_sublist
  rw [text_toList, text_toList, hpieces]
  cases hplace : path.place with
  | nil =>
      -- The path of the root directory is one slash, and any absolute path begins with one.
      have hroot : joinAtSlashes ((Location.path []).pieces.map String.toList) = ['/'] := rfl
      rw [hroot, List.map_cons, joinAtSlashes_cons (by simp)]
      exact List.singleton_sublist.mpr (by simp)
  | cons name names =>
      rw [hplace] at hsteps
      exact joinAtSlashes_sublist ((hsteps.cons_cons "").map String.toList)

/-! ## Normal forms -/

/-- The path that leads up from the root directory some times and then down to a place. -/
def rising (ups : Nat) (place : Location) : Path :=
  ofComponents (.root :: (List.replicate ups .up ++ place.map .name))

theorem rising_zero (place : Location) : rising 0 place = place.path := by
  cases place with
  | nil => rfl
  | cons name names =>
      have hpieces : (names.map Component.name).map Component.piece = names := by
        rw [List.map_map]
        exact List.map_id names
      exact congrArg (fun names => Path.mk ("" :: name :: names)) hpieces

theorem rising_eq_root_or_pieces_rising (ups : Nat) (place : Location) :
    (rising ups place = root ∧ List.replicate ups ".." ++ place = []) ∨
      (rising ups place).pieces = "" :: (List.replicate ups ".." ++ place) := by
  have hpieces : (List.replicate ups Component.up ++ place.map Component.name).map Component.piece =
      List.replicate ups ".." ++ place := by
    rw [List.map_append, List.map_replicate, List.map_map]
    exact congrArg _ (List.map_id place)
  unfold rising
  rw [← hpieces]
  cases List.replicate ups Component.up ++ place.map Component.name with
  | nil => exact Or.inl ⟨rfl, rfl⟩
  | cons first rest => exact Or.inr rfl

theorem isAbsolute_rising (ups : Nat) (place : Location) : (rising ups place).isAbsolute := by
  unfold rising
  cases List.replicate ups Component.up ++ place.map Component.name with
  | nil => rfl
  | cons first rest => rfl

theorem mem_pieces_rising {ups : Nat} {place : Location} {piece : String}
    (hpiece : piece ∈ (rising ups place).pieces) : piece = "" ∨ piece = ".." ∨ piece ∈ place := by
  rcases rising_eq_root_or_pieces_rising ups place with ⟨hroot, -⟩ | hpieces
  · rw [hroot] at hpiece
    simp only [root, List.mem_cons, List.not_mem_nil, or_false, or_self] at hpiece
    exact Or.inl hpiece
  · rw [hpieces, List.mem_cons, List.mem_append] at hpiece
    rcases hpiece with hempty | hup | hname
    · exact Or.inl hempty
    · exact Or.inr (Or.inl (List.eq_of_mem_replicate hup))
    · exact Or.inr (Or.inr hname)

theorem isCut_rising (ups : Nat) {place : Location} (hproper : place.IsProper) :
    (rising ups place).IsCut where
  ne_nil := by
    obtain ⟨second, rest, hpieces⟩ := exists_pieces_of_isAbsolute (isAbsolute_rising ups place)
    rw [hpieces]
    exact List.cons_ne_nil _ _
  no_slash := by
    intro piece hpiece
    rcases mem_pieces_rising hpiece with rfl | rfl | hname
    · decide
    · decide
    · exact (hproper piece hname).no_slash

theorem steps_rising (ups : Nat) {place : Location} (hproper : place.IsProper) :
    (rising ups place).steps = List.replicate ups ".." ++ place := by
  rcases rising_eq_root_or_pieces_rising ups place with ⟨hroot, hnil⟩ | hpieces
  · rw [hroot, hnil]
    rfl
  · unfold steps
    rw [hpieces, List.filter_cons_of_neg (by simp), List.filter_eq_self]
    intro step hstep
    rcases List.mem_append.mp hstep with hup | hname
    · rw [List.eq_of_mem_replicate hup]
      decide
    · simpa using (hproper step hname).ne_empty

/-- Empty pieces and dots are no names. -/
theorem componentOf_eq_name_iff {name : String} : componentOf? name = some (.name name) ↔
    name ≠ "" ∧ name ≠ "." ∧ name ≠ ".." := by
  unfold componentOf?
  by_cases hskip : name = "" ∨ name = "."
  · rw [if_pos hskip]
    exact iff_of_false (fun h => nomatch h) fun h => hskip.elim h.1 h.2.1
  · rw [if_neg hskip]
    rw [not_or] at hskip
    by_cases hup : name = ".."
    · simp [hup]
    · rw [if_neg hup]
      exact iff_of_true rfl ⟨hskip.1, hskip.2, hup⟩

/-- Normalizing builds what the steps build, on a stack of components whose top is the last name.
What is in excess gathers below the names. -/
theorem foldl_pushNormal (pieces : List String) (ups : Nat) (place : Location) :
    (pieces.filterMap componentOf?).foldl pushNormal
        (place.reverse.map Component.name ++ List.replicate ups .up ++ [.root]) =
      ((pieces.filter (· != "")).foldl Location.step place).reverse.map Component.name ++
        List.replicate (ups + Location.excess place (pieces.filter (· != ""))) .up ++ [.root] := by
  induction pieces generalizing ups place with
  | nil => rfl
  | cons piece rest ih =>
      -- Empty pieces and dots are no components, and as steps they lead nowhere.
      by_cases hempty : piece = ""
      · subst hempty
        exact ih ups place
      rw [List.filter_cons_of_pos (by simpa using hempty), List.foldl_cons, Location.excess]
      by_cases hhere : piece = "."
      · subst hhere
        rw [if_neg fun h => absurd h.1 (by decide), Nat.zero_add]
        exact ih ups place
      by_cases hup : piece = ".."
      · subst hup
        have hcomponent : componentOf? ".." = some .up := rfl
        rw [List.filterMap_cons_some hcomponent, List.foldl_cons, Location.step_up]
        cases hplace : place.reverse with
        | nil =>
            -- There is no name to take away, so the two dots stay on the stack.
            obtain rfl := List.reverse_eq_nil_iff.mp hplace
            have hstack : pushNormal ([].map Component.name ++ List.replicate ups .up ++ [.root])
                .up = [].map Component.name ++ List.replicate (ups + 1) .up ++ [.root] := by
              cases ups with
              | zero => rfl
              | succ ups => rfl
            rw [if_pos ⟨rfl, rfl⟩, ← Nat.add_assoc, hstack]
            exact ih (ups + 1) []
        | cons last before =>
            have hdrop : place.dropLast.reverse = before := by
              rw [← List.tail_reverse, hplace, List.tail_cons]
            have hne : place ≠ [] := by
              rintro rfl
              exact absurd hplace (by simp)
            rw [if_neg fun h => hne h.2, Nat.zero_add, ← hdrop]
            exact ih ups place.dropLast
      · have hcomponent : componentOf? piece = some (.name piece) :=
          componentOf_eq_name_iff.mpr ⟨hempty, hhere, hup⟩
        rw [List.filterMap_cons_some hcomponent, List.foldl_cons, Location.step_of_ne hhere hup,
          if_neg fun h => hup h.1, Nat.zero_add]
        have hih := ih ups (place ++ [piece])
        rw [List.reverse_append, List.reverse_singleton, List.singleton_append,
          List.map_cons] at hih
        exact hih

/-- The number of steps of a path that lead up from the root directory, and so lead nowhere. -/
def excess (path : Path) : Nat :=
  Location.excess [] path.steps

theorem normalized_eq_rising {path : Path} (habsolute : path.isAbsolute) :
    path.normalized = rising path.excess path.place := by
  obtain ⟨second, rest, hpieces⟩ := exists_pieces_of_isAbsolute habsolute
  have hfold := foldl_pushNormal (second :: rest) 0 []
  have hcomponents : path.components = .root :: (second :: rest).filterMap componentOf? := by
    unfold components
    rw [hpieces]
    rfl
  have hsteps : path.steps = (second :: rest).filter (· != "") := by
    unfold steps
    rw [hpieces, List.filter_cons_of_neg (by simp)]
  rw [← hsteps, Nat.zero_add] at hfold
  unfold normalized rising excess place
  rw [hcomponents, List.foldl_cons]
  have hstart : pushNormal [] .root = [Component.root] := rfl
  rw [hstart]
  refine congrArg ofComponents ((congrArg List.reverse hfold).trans ?_)
  simp

theorem place_rising (ups : Nat) {place : Location} (hproper : place.IsProper) :
    (rising ups place).place = place := by
  unfold Path.place
  rw [steps_rising ups hproper, List.foldl_append, Location.foldl_step_ups,
    Location.foldl_step_names hproper, List.nil_append]

theorem excess_rising (ups : Nat) {place : Location} (hproper : place.IsProper) :
    (rising ups place).excess = ups := by
  unfold excess
  rw [steps_rising ups hproper, Location.excess_ups, Location.excess_names hproper, Nat.add_zero]

/-- A normal form is its own normal form. -/
theorem normalized_rising (ups : Nat) {place : Location} (hproper : place.IsProper) :
    (rising ups place).normalized = rising ups place := by
  rw [normalized_eq_rising (isAbsolute_rising ups place), excess_rising ups hproper,
    place_rising ups hproper]

end Path

end LintRepair
