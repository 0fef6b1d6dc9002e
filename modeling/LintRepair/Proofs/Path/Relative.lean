import Mathlib.Data.List.Basic
import Mathlib.Tactic.Common
import LintRepair.Proofs.Path.Lexical

/-!
# Paths from a directory

What a path from a directory adds to the path of the directory: its steps, behind those of the
directory (`steps_join`).  A path that is put together from components has just these as its steps
and as its components (`components_ofComponents`), and cutting its text gives the path back.
-/

namespace LintRepair

namespace Path

variable {place : Location} {components : List Component} {first second path : Path}

/-! ## Relative paths -/

theorem isAbsolute_join {first : Path} (hfirst : first.isAbsolute) (hsecond : second.pieces ≠ []) :
    (first.join second).isAbsolute := by
  obtain ⟨next, rest, hpieces⟩ := exists_pieces_of_isAbsolute hfirst
  obtain ⟨head, tail, hcons⟩ := List.exists_cons_of_ne_nil hsecond
  unfold join
  rw [isEmpty_of_isAbsolute hfirst, Bool.or_false]
  split
  · next habsolute => exact habsolute
  split
  · rw [hpieces, hcons, List.dropLast_cons_cons]
    cases rest with
    | nil => exact isAbsolute_of_pieces rfl
    | cons another rest => exact isAbsolute_of_pieces rfl
  · rw [hpieces]
    exact isAbsolute_of_pieces rfl

/-- The components lead up or to an entry. -/
def Component.IsStep (component : Component) : Prop :=
  component = .up ∨ ∃ name, component = .name name ∧ IsName name

theorem Component.IsStep.piece_ne_empty {component : Component} (hstep : component.IsStep) :
    component.piece ≠ "" := by
  rcases hstep with rfl | ⟨name, rfl, hname⟩
  · decide
  · exact hname.ne_empty

theorem pieces_ofComponents_ne_nil (components : List Component) :
    (ofComponents components).pieces ≠ [] := by
  unfold ofComponents
  split
  · exact List.cons_ne_nil _ _
  · exact List.cons_ne_nil _ _
  · next hne _ =>
    rw [Ne, List.map_eq_nil_iff]
    exact hne

theorem ofComponents_cases (hsteps : ∀ component ∈ components, component.IsStep) :
    (ofComponents components = empty ∧ components = []) ∨
      (ofComponents components).pieces = components.map Component.piece := by
  cases components with
  | nil => exact Or.inl ⟨rfl, rfl⟩
  | cons first rest =>
      rcases hsteps first List.mem_cons_self with rfl | ⟨name, rfl, -⟩
      · exact Or.inr rfl
      · exact Or.inr rfl

theorem steps_ofComponents (hsteps : ∀ component ∈ components, component.IsStep) :
    (ofComponents components).steps = components.map Component.piece := by
  rcases ofComponents_cases hsteps with ⟨hempty, rfl⟩ | hpieces
  · rw [hempty]
    rfl
  · unfold steps
    rw [hpieces, List.filter_eq_self, List.forall_mem_map]
    intro component hcomponent
    simpa using (hsteps component hcomponent).piece_ne_empty

theorem isAbsolute_ofComponents (hsteps : ∀ component ∈ components, component.IsStep) :
    (ofComponents components).isAbsolute = false := by
  rcases ofComponents_cases hsteps with ⟨hempty, -⟩ | hpieces
  · rw [hempty]
    rfl
  · unfold isAbsolute
    rw [hpieces]
    split
    · next second rest hmap =>
      -- The first piece stands for a step, and that is not the empty piece of an absolute path.
      obtain ⟨first, tail, rfl, hfirst, -⟩ := List.map_eq_cons_iff.mp hmap
      exact absurd hfirst (hsteps first List.mem_cons_self).piece_ne_empty
    · rfl

theorem isCut_ofComponents (hsteps : ∀ component ∈ components, component.IsStep) :
    (ofComponents components).IsCut := by
  rcases ofComponents_cases hsteps with ⟨hempty, rfl⟩ | hpieces
  · rw [hempty]
    exact ⟨by decide, by decide⟩
  · refine ⟨fun hnil => ?_, ?_⟩
    · rw [hnil] at hpieces
      obtain rfl := List.map_eq_nil_iff.mp hpieces.symm
      exact absurd hnil (by decide)
    · rw [hpieces, List.forall_mem_map]
      intro component hcomponent
      rcases hsteps component hcomponent with rfl | ⟨name, rfl, hname⟩
      · decide
      · exact hname.no_slash

theorem componentOf_name {name : String} (hname : IsName name) :
    componentOf? name = some (.name name) :=
  componentOf_eq_name_iff.mpr ⟨hname.ne_empty, hname.ne_here, hname.ne_up⟩

theorem filterMap_componentOf_names (hproper : place.IsProper) :
    place.filterMap componentOf? = place.map .name := by
  induction place with
  | nil => rfl
  | cons name names ih =>
      have hname := hproper name List.mem_cons_self
      rw [List.filterMap_cons_some (componentOf_name hname), List.map_cons,
        ih fun other hother => hproper other (List.mem_cons_of_mem _ hother)]

theorem components_rising (ups : Nat) (hproper : place.IsProper) :
    (rising ups place).components = .root :: (List.replicate ups .up ++ place.map .name) := by
  have hups : (List.replicate ups "..").filterMap componentOf? = List.replicate ups .up :=
    List.filterMap_replicate_of_some rfl
  rcases rising_eq_root_or_pieces_rising ups place with ⟨hroot, hnil⟩ | hpieces
  · obtain ⟨hzero, rfl⟩ := List.append_eq_nil_iff.mp hnil
    obtain rfl : ups = 0 := by simpa using hzero
    rw [hroot]
    rfl
  · obtain ⟨second, rest, hcons⟩ := exists_pieces_of_isAbsolute (isAbsolute_rising ups place)
    have hsteps : List.replicate ups ".." ++ place = second :: rest :=
      (List.cons.inj (hpieces.symm.trans hcons)).2
    unfold components
    rw [hcons, ← hups, ← filterMap_componentOf_names hproper, ← List.filterMap_append, hsteps]
    rfl

/-! ## Components -/

theorem isStep_of_componentOf {piece : String} {component : Component}
    (hslash : '/' ∉ piece.toList) (hcomponent : componentOf? piece = some component) :
    component.IsStep := by
  unfold componentOf? at hcomponent
  split at hcomponent
  · exact absurd hcomponent (by simp)
  next hnone =>
  rw [not_or] at hnone
  split at hcomponent
  · exact Or.inl (Option.some.inj hcomponent).symm
  · next hup =>
    exact Or.inr ⟨piece, (Option.some.inj hcomponent).symm, hnone.1, hnone.2, hup, hslash⟩

theorem componentOf_piece {component : Component} (hstep : component.IsStep) :
    componentOf? component.piece = some component := by
  rcases hstep with rfl | ⟨name, rfl, hname⟩
  · rfl
  · exact componentOf_name hname

theorem filterMap_pieces_ofComponents (hsteps : ∀ component ∈ components, component.IsStep) :
    (ofComponents components).pieces.filterMap componentOf? = components := by
  rcases ofComponents_cases hsteps with ⟨hempty, rfl⟩ | hpieces
  · rw [hempty]
    rfl
  · rw [hpieces, List.filterMap_map]
    calc components.filterMap (componentOf? ∘ Component.piece)
        = components.filterMap some :=
          List.filterMap_congr fun component hcomponent =>
            componentOf_piece (hsteps component hcomponent)
      _ = components := List.filterMap_some

theorem components_of_isAbsolute (habsolute : path.isAbsolute) :
    path.components = .root :: path.pieces.filterMap componentOf? := by
  obtain ⟨second, rest, hpieces⟩ := exists_pieces_of_isAbsolute habsolute
  unfold components
  rw [hpieces]
  rfl

theorem components_of_relative (hrelative : path.isAbsolute = false)
    (hhere : path.pieces.head? ≠ some ".") :
    path.components = path.pieces.filterMap componentOf? := by
  unfold components
  split
  · next hpieces =>
    rw [hpieces]
    rfl
  · next second rest hpieces =>
    exact absurd (isAbsolute_of_pieces hpieces) (by simp [hrelative])
  · next rest hpieces => exact absurd (by rw [hpieces]; rfl) hhere
  · rfl

/-- A path from components in which nothing is left out has these. -/
theorem components_ofComponents (hsteps : ∀ component ∈ components, component.IsStep) :
    (ofComponents components).components = components := by
  refine (components_of_relative (isAbsolute_ofComponents hsteps) ?_).trans
    (filterMap_pieces_ofComponents hsteps)
  rcases ofComponents_cases hsteps with ⟨hempty, -⟩ | hpieces
  · rw [hempty]
    decide
  · rw [hpieces]
    cases components with
    | nil => exact fun h => nomatch h
    | cons component rest =>
        rw [List.map_cons, List.head?_cons]
        rcases hsteps component List.mem_cons_self with rfl | ⟨name, rfl, hname⟩
        · decide
        · exact fun hhere => hname.ne_here (Option.some.inj hhere)

/-- A path may start at the root or here; behind that, its components are those of its pieces. -/
theorem exists_components_eq (path : Path) :
    ∃ lead, path.components = lead ++ path.pieces.filterMap componentOf? ∧
      ∀ component ∈ lead, component = .root ∧ path.isAbsolute ∨ component = .here := by
  by_cases habsolute : path.isAbsolute
  · refine ⟨[.root], components_of_isAbsolute habsolute, ?_⟩
    exact List.forall_mem_singleton.mpr (Or.inl ⟨rfl, habsolute⟩)
  · by_cases hhere : path.pieces.head? = some "."
    · obtain ⟨rest, hpieces⟩ := List.head?_eq_some_iff.mp hhere
      refine ⟨[.here], ?_, List.forall_mem_singleton.mpr (Or.inr rfl)⟩
      unfold components
      rw [hpieces]
      rfl
    · exact ⟨[], components_of_relative (Bool.eq_false_iff.mpr habsolute) hhere,
        List.forall_mem_nil _⟩

/-- Behind the root directory there are only steps; a dot may stand at the front. -/
theorem isStep_of_mem_components (hcut : path.IsCut) {component : Component}
    (hcomponent : component ∈ path.components) :
    (component = .root ∧ path.isAbsolute) ∨ component = .here ∨ component.IsStep := by
  obtain ⟨lead, hcomponents, hlead⟩ := exists_components_eq path
  rw [hcomponents, List.mem_append] at hcomponent
  obtain hmem | hmem := hcomponent
  · obtain hroot | hhere := hlead component hmem
    · exact Or.inl hroot
    · exact Or.inr (Or.inl hhere)
  · obtain ⟨piece, hpiece, hof⟩ := List.mem_filterMap.mp hmem
    exact Or.inr (Or.inr (isStep_of_componentOf (hcut.no_slash piece hpiece) hof))

/-! ## Joining -/

/-- An empty piece at the end of the first path, where its text ends with a slash, is not doubled.
-/
theorem pieces_join_cases (hempty : first.isEmpty = false) (hrelative : second.isAbsolute = false) :
    (first.join second).pieces = first.pieces ++ second.pieces ∨
      ∃ front, first.pieces = front ++ [""] ∧
        (first.join second).pieces = front ++ second.pieces := by
  unfold join
  rw [hrelative, hempty, Bool.or_false, if_neg Bool.false_ne_true]
  split
  · next hlast =>
    refine Or.inr ⟨first.pieces.dropLast, ?_, rfl⟩
    exact (List.dropLast_append_getLast? "" hlast).symm
  · exact Or.inl rfl

theorem steps_join (hempty : first.isEmpty = false) (hrelative : second.isAbsolute = false) :
    (first.join second).steps = first.steps ++ second.steps := by
  unfold steps
  rcases pieces_join_cases hempty hrelative with hpieces | ⟨front, hfront, hpieces⟩
  · rw [hpieces, List.filter_append]
  · rw [hpieces, hfront, List.filter_append, List.filter_append, List.filter_cons_of_neg (by simp),
      List.filter_nil, List.append_nil]

theorem components_join (hfirst : first.isAbsolute) (hrelative : second.isAbsolute = false)
    (hne : second.pieces ≠ []) :
    (first.join second).components = first.components ++ second.pieces.filterMap componentOf? := by
  have hempty : [""].filterMap componentOf? = [] := rfl
  rw [components_of_isAbsolute (isAbsolute_join hfirst hne), components_of_isAbsolute hfirst]
  rcases pieces_join_cases (isEmpty_of_isAbsolute hfirst) hrelative with
    hpieces | ⟨front, hfront, hpieces⟩
  · rw [hpieces, List.filterMap_append, List.cons_append]
  · rw [hpieces, hfront, List.filterMap_append, List.filterMap_append, hempty, List.append_nil,
      List.cons_append]

theorem isCut_join (hfirst : first.isAbsolute) (hcut : first.IsCut) (hcut' : second.IsCut) :
    (first.join second).IsCut := by
  cases hsecond : second.isAbsolute with
  | true =>
      unfold join
      rw [hsecond, Bool.true_or, if_pos rfl]
      exact hcut'
  | false =>
      have hslash := hcut.no_slash
      rcases pieces_join_cases (isEmpty_of_isAbsolute hfirst) hsecond with
        hpieces | ⟨front, hfront, hpieces⟩
      · refine ⟨by simp [hpieces, hcut'.ne_nil], ?_⟩
        rw [hpieces, List.forall_mem_append]
        exact ⟨hslash, hcut'.no_slash⟩
      · rw [hfront, List.forall_mem_append] at hslash
        refine ⟨by simp [hpieces, hcut'.ne_nil], ?_⟩
        rw [hpieces, List.forall_mem_append]
        exact ⟨hslash.1, hcut'.no_slash⟩

theorem place_join (hfirst : first.isAbsolute) (hrelative : second.isAbsolute = false) :
    (first.join second).place = second.steps.foldl Location.step first.place := by
  unfold place
  rw [steps_join (isEmpty_of_isAbsolute hfirst) hrelative, List.foldl_append]

/-! ## Paths that lead down -/

/-- An absolute path whose components are names.  Its text may have slashes and dots in excess. -/
structure IsDescent (path : Path) : Prop where
  isCut : path.IsCut
  exists_names : ∃ names : Location, path.components = .root :: names.map .name

theorem foldl_step_of_names {pieces : List String} {names : Location}
    (hnames : pieces.filterMap componentOf? = names.map .name) (current : Location) :
    (pieces.filter (· != "")).foldl Location.step current = current ++ names := by
  induction pieces generalizing current names with
  | nil =>
      obtain rfl := List.map_eq_nil_iff.mp hnames.symm
      rw [List.filter_nil, List.foldl_nil, List.append_nil]
  | cons piece rest ih =>
      by_cases hempty : piece = ""
      · subst hempty
        exact ih hnames current
      rw [List.filter_cons_of_pos (by simpa using hempty), List.foldl_cons]
      by_cases hhere : piece = "."
      · subst hhere
        exact ih hnames current
      by_cases hup : piece = ".."
      · have hcomponent : componentOf? piece = some .up := by
          rw [hup]
          rfl
        rw [List.filterMap_cons_some hcomponent] at hnames
        -- A `..` would be a component that is no name.
        obtain ⟨name, others, -, hname, -⟩ := List.map_eq_cons_iff.mp hnames.symm
        exact absurd hname (by simp)
      · have hcomponent : componentOf? piece = some (.name piece) :=
          componentOf_eq_name_iff.mpr ⟨hempty, hhere, hup⟩
        rw [List.filterMap_cons_some hcomponent] at hnames
        obtain ⟨name, others, rfl, hname, hothers⟩ := List.map_eq_cons_iff.mp hnames.symm
        rw [Location.step_of_ne hhere hup, ih hothers.symm, Component.name.inj hname,
          List.append_assoc, List.singleton_append]

namespace IsDescent

theorem isAbsolute (h : path.IsDescent) : path.isAbsolute := by
  obtain ⟨names, hnames⟩ := h.exists_names
  have hroot : Component.root ∈ path.components := hnames ▸ List.mem_cons_self
  rcases isStep_of_mem_components h.isCut hroot with ⟨-, habsolute⟩ | hhere | hup | ⟨name, hname, -⟩
  · exact habsolute
  · exact absurd hhere (by simp)
  · exact absurd hup (by simp)
  · exact absurd hname (by simp)

/-- The components are the names on the way to the place. -/
theorem components_eq (h : path.IsDescent) :
    path.components = .root :: path.place.map .name := by
  obtain ⟨names, hnames⟩ := h.exists_names
  obtain ⟨second, rest, hpieces⟩ := exists_pieces_of_isAbsolute h.isAbsolute
  have htail : (second :: rest).filterMap componentOf? = names.map .name := by
    rw [components_of_isAbsolute h.isAbsolute, hpieces, List.filterMap_cons_none rfl] at hnames
    exact (List.cons.inj hnames).2
  have hplace : path.place = names := by
    unfold place steps
    rw [hpieces, List.filter_cons_of_neg (by simp), foldl_step_of_names htail, List.nil_append]
  rw [hnames, hplace]

end IsDescent

end Path

end LintRepair
