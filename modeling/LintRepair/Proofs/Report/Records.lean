import Mathlib.Data.List.Nodup
import Mathlib.Data.List.Count
import LintRepair.Proofs.FirstError
import LintRepair.Report.Record

/-!
# Which values are records

Whether a value can be read as a record does not depend on how reading goes about it.  A value
*shows* the parts of a record (`Layout.Shows`): an object has at most one value under each name of
the layout, in any order and among any other members, and an array has its items in the order of the
names.

* `Layout.readMembers_eq_ok_iff` says what becomes of the members of an object: the known ones are
  read one after the other, without a name coming twice.
* `Layout.readAll_perm`: the order in which they come does not matter, as every field sets a part of
  the record of its own (`Field.Commutes`).
* `Layout.read_eq_ok_iff` is the outcome for both forms: reading gives the record that the parts
  make up in the order of the layout, and no required part may be left out.
-/

namespace LintRepair.Report

open Json (Value Key)

/-- Two fields can be read in either order. -/
def Field.Commutes {α : Type} (first second : Field α) : Prop :=
  ∀ a b record result, (first.read a record >>= second.read b) = .ok result ↔
    (second.read b record >>= first.read a) = .ok result

theorem Field.Commutes.symm {α : Type} {first second : Field α} (h : first.Commutes second) :
    second.Commutes first :=
  fun a b record result => (h b a record result).symm

namespace Layout

/-- The values that an object has under a name. -/
def valuesOf (name : String) (members : List (Key × Value)) : List Value :=
  members.filterMap fun (key, value) =>
    match key with
    | .text other => if other = name then some value else none
    | _ => none

/-- All keys are texts, and members without one of the names can be passed over. -/
def Passable (names : List String) (members : List (Key × Value)) : Prop :=
  ∀ member ∈ members, ∃ name, member.1 = .text name ∧
    (name ∉ names → member.2.skipFault? = none)

/-- A value shows the parts of a record, of which `part` holds those that are there. -/
inductive Shows (names : List String) (part : String → Option Value) : Value → Prop where
  /-- Every name stands before its part, if there is one, and before nothing else. -/
  | object {members : List (Key × Value)}
      (known : ∀ name ∈ names, valuesOf name members = (part name).toList)
      (others : Passable names members) :
      Shows names part (.object members none)
  /-- The parts stand in the order of their names, and there may be fewer. -/
  | array {items : List Value} (few : items.length ≤ names.length)
      (known : ∀ (k : Nat) name, names[k]? = some name → part name = items[k]?) :
      Shows names part (.list items)

variable {α : Type} {layout : Layout α} {part : String → Option Value} {record result : α}

def names (layout : Layout α) : List String :=
  layout.fields.map Field.name

theorem name_of_field?_eq_some {name : String} {field : Field α}
    (hfound : layout.field? name = some field) : field.name = name := by
  simpa using List.find?_some hfound

theorem field?_eq_none_iff {name : String} :
    layout.field? name = none ↔ name ∉ layout.names := by
  simp [field?, names]

/-- A field is found by its name if no other has it. -/
theorem field?_eq_some {field : Field α} (hnodup : layout.names.Nodup)
    (hfield : field ∈ layout.fields) : layout.field? field.name = some field := by
  unfold names at hnodup
  unfold field?
  generalize layout.fields = all at hnodup hfield
  induction all with
  | nil => cases hfield
  | cons first rest ih =>
    rw [List.map_cons, List.nodup_cons] at hnodup
    rcases List.mem_cons.mp hfield with rfl | hrest
    · exact List.find?_cons_of_pos (beq_self_eq_true _)
    · have hne : (first.name == field.name) = false := by
        refine beq_false_of_ne fun heq => hnodup.1 ?_
        exact heq ▸ List.mem_map_of_mem hrest
      simp only [List.find?_cons, hne]
      exact ih hnodup.2 hrest

/-! ## Steps -/

/-- Reads fields from their values, one after the other. -/
def readAll (steps : List (Field α × Value)) (record : α) : Except ReadError α :=
  steps.foldlM (fun record step => step.1.read step.2 record) record

/-- Reads the part of a field.  Only parts that are not required may be left out. -/
def readPart (part : String → Option Value) (record : α) (field : Field α) : Except ReadError α :=
  match part field.name with
  | some value => field.read value record
  | none => if field.required then .error (.missing field.name) else .ok record

/-- The fields whose parts are there, in the order of the layout. -/
def present (layout : Layout α) (part : String → Option Value) : List (Field α × Value) :=
  layout.fields.filterMap fun field => (part field.name).map (field, ·)

theorem readAll_cons_eq_ok_iff {step : Field α × Value} {steps : List (Field α × Value)} :
    readAll (step :: steps) record = .ok result ↔
      ∃ next, step.1.read step.2 record = .ok next ∧ readAll steps next = .ok result := by
  unfold readAll
  rw [List.foldlM_cons, FirstError.bind_eq_ok_iff]

/-- Parts are read in the order of the layout, passing over those that are not there. -/
theorem foldlM_readPart_eq_ok_iff :
    layout.fields.foldlM (readPart part) record = .ok result ↔
      (∀ field ∈ layout.fields, field.required → part field.name ≠ none) ∧
        readAll (layout.present part) record = .ok result := by
  unfold present
  generalize layout.fields = fields
  induction fields generalizing record with
  | nil => simp [readAll]
  | cons field fields ih =>
    rw [List.foldlM_cons, FirstError.bind_eq_ok_iff, List.forall_mem_cons]
    -- A field without a part is passed over unless it is required, another one is read first.
    cases hpart : part field.name with
    | none =>
      rw [List.filterMap_cons_none (by rw [hpart]; rfl)]
      cases hrequired : field.required <;> simp [readPart, hpart, hrequired, ih]
    | some value =>
      rw [List.filterMap_cons_some (by rw [hpart]; rfl), readAll_cons_eq_ok_iff]
      simp only [readPart, hpart, ih]
      constructor
      · rintro ⟨next, hread, hrest, hall⟩
        exact ⟨⟨nofun, hrest⟩, next, hread, hall⟩
      · rintro ⟨⟨-, hrest⟩, next, hread, hall⟩
        exact ⟨next, hread, hrest, hall⟩

/-- The order of the fields does not matter. -/
theorem readAll_perm {steps others : List (Field α × Value)} (hperm : steps.Perm others)
    (hcommutes : steps.Pairwise fun a b => a.1.Commutes b.1) :
    readAll steps record = .ok result ↔ readAll others record = .ok result := by
  induction hperm generalizing record with
  | nil => rfl
  | cons step _ ih =>
    simp only [readAll_cons_eq_ok_iff, ih hcommutes.of_cons]
  | swap first second rest =>
    -- Two fields that commute leave one record for the rest, in either order.
    have hswap := (List.pairwise_cons.mp hcommutes).1 first List.mem_cons_self
    unfold readAll
    simp only [List.foldlM_cons, ← bind_assoc]
    rw [FirstError.bind_eq_ok_iff, FirstError.bind_eq_ok_iff]
    simp only [hswap _ _ _ _]
  | trans hfirst _ ihfirst ihsecond =>
    rw [ihfirst hcommutes, ihsecond]
    exact (hfirst.pairwise_iff fun h => h.symm).mp hcommutes

/-! ## Members -/

/-- The members that the layout knows, with their fields. -/
def known (layout : Layout α) (members : List (Key × Value)) : List (Field α × Value) :=
  members.filterMap fun (key, value) =>
    match key with
    | .text name => (layout.field? name).map (·, value)
    | _ => none

def namesOf (steps : List (Field α × Value)) : List String :=
  steps.map fun step => step.1.name

theorem passable_cons {names : List String} {name : String} {value : Value}
    {rest : List (Key × Value)} :
    Passable names ((.text name, value) :: rest) ↔
      (name ∉ names → value.skipFault? = none) ∧ Passable names rest := by
  unfold Passable
  rw [List.forall_mem_cons]
  simp only [Key.text.injEq, exists_eq_left']

theorem known_cons_of_some {name : String} {value : Value} {rest : List (Key × Value)}
    {field : Field α} (hfield : layout.field? name = some field) :
    layout.known ((.text name, value) :: rest) = (field, value) :: layout.known rest := by
  unfold known
  simp [hfield]

theorem known_cons_of_none {name : String} {value : Value} {rest : List (Key × Value)}
    (hfield : layout.field? name = none) :
    layout.known ((.text name, value) :: rest) = layout.known rest := by
  unfold known
  simp [hfield]

/-- The known members are read one after the other, with no name coming twice. -/
theorem readMembers_eq_ok_iff {members : List (Key × Value)} {seen after : List String}
    (hseen : seen.Nodup) :
    layout.readMembers members seen record = .ok (after, result) ↔
      Passable layout.names members ∧ after = (namesOf (layout.known members)).reverse ++ seen ∧
      after.Nodup ∧ readAll (layout.known members) record = .ok result := by
  -- Induction on the members, for any names seen so far, none of them twice.
  induction members generalizing seen record with
  | nil =>
    simp only [readMembers, Passable, known, namesOf, readAll, List.not_mem_nil,
      List.filterMap_nil, List.map_nil, List.reverse_nil, List.nil_append, List.foldlM_nil]
    constructor
    · rintro h
      obtain ⟨rfl, rfl⟩ := Prod.mk.inj (Except.ok.inj h)
      exact ⟨fun _ hmem => hmem.elim, rfl, hseen, rfl⟩
    · rintro ⟨-, rfl, -, h⟩
      rw [Except.ok.inj h]
  | cons member rest ih =>
    obtain ⟨key, value⟩ := member
    cases key with
    | text name =>
      rw [readMembers, passable_cons, ← field?_eq_none_iff]
      -- A name that is not known is skipped with its value, a known one is read the first time.
      cases hfield : layout.field? name with
      | none =>
        rw [known_cons_of_none hfield]
        cases hskip : value.skipFault? with
        | some fault => simp
        | none => simp [ih hseen]
      | some field =>
        obtain rfl := name_of_field?_eq_some hfield
        have hnames : (namesOf ((field, value) :: layout.known rest)).reverse ++ seen =
            (namesOf (layout.known rest)).reverse ++ field.name :: seen := by
          simp [namesOf]
        rw [known_cons_of_some hfield, hnames]
        by_cases hmem : field.name ∈ seen
        · simp only [if_pos hmem, reduceCtorEq, false_iff]
          -- A name that has been seen would come twice among the names after reading.
          rintro ⟨-, rfl, hnodup, -⟩
          exact (List.nodup_cons.mp (List.nodup_append.mp hnodup).2.1).1 hmem
        · have hnext : (field.name :: seen).Nodup := List.nodup_cons.mpr ⟨hmem, hseen⟩
          simp only [if_neg hmem, FirstError.bind_eq_ok_iff, ih hnext, readAll_cons_eq_ok_iff]
          constructor
          · rintro ⟨next, hread, hrest, hafter, hnodup, hall⟩
            exact ⟨⟨fun h => absurd h (Option.some_ne_none field), hrest⟩, hafter, hnodup, next,
              hread, hall⟩
          · rintro ⟨⟨-, hrest⟩, hafter, hnodup, next, hread, hall⟩
            exact ⟨next, hread, hrest, hafter, hnodup, hall⟩
    | unpaired => simp [readMembers, Passable]
    | broken read skipped => simp [readMembers, Passable]
    | other found => simp [readMembers, Passable]

/-! ## Objects -/

theorem mem_valuesOf {name : String} {value : Value} {members : List (Key × Value)} :
    value ∈ valuesOf name members ↔ (Key.text name, value) ∈ members := by
  unfold valuesOf
  rw [List.mem_filterMap]
  constructor
  · rintro ⟨⟨key, other⟩, hmem, hvalue⟩
    cases key with
    | text found =>
      simp only [Option.ite_none_right_eq_some, Option.some.injEq] at hvalue
      obtain ⟨rfl, rfl⟩ := hvalue
      exact hmem
    | unpaired => cases hvalue
    | broken read skipped => cases hvalue
    | other found => cases hvalue
  · intro hmem
    exact ⟨_, hmem, if_pos rfl⟩

theorem mem_known {field : Field α} {value : Value} {members : List (Key × Value)}
    (hnames : layout.names.Nodup) :
    (field, value) ∈ layout.known members ↔
      field ∈ layout.fields ∧ (Key.text field.name, value) ∈ members := by
  unfold known
  rw [List.mem_filterMap]
  constructor
  · rintro ⟨⟨key, other⟩, hmem, hfield⟩
    cases key with
    | text found =>
      obtain ⟨_, hfound, hpair⟩ := Option.map_eq_some_iff.mp hfield
      obtain ⟨rfl, rfl⟩ := Prod.mk.inj hpair
      obtain rfl := name_of_field?_eq_some hfound
      exact ⟨List.mem_of_find?_eq_some hfound, hmem⟩
    | unpaired => cases hfield
    | broken read skipped => cases hfield
    | other found => cases hfield
  · rintro ⟨hfield, hmem⟩
    exact ⟨_, hmem, by simp [field?_eq_some hnames hfield]⟩

theorem count_namesOf_known {name : String} (hname : name ∈ layout.names)
    (members : List (Key × Value)) :
    (namesOf (layout.known members)).count name = (valuesOf name members).length := by
  induction members with
  | nil => rfl
  | cons member rest ih =>
    obtain ⟨key, value⟩ := member
    cases key with
    | text found =>
      cases hfield : layout.field? found with
      | none =>
        -- The name in question is one of the layout, so it is not this one.
        have hne : found ≠ name := by
          rintro rfl
          exact field?_eq_none_iff.mp hfield hname
        rw [known_cons_of_none hfield, ih]
        simp [valuesOf, hne]
      | some field =>
        obtain rfl := name_of_field?_eq_some hfield
        rw [known_cons_of_some hfield]
        unfold namesOf valuesOf at ih ⊢
        rw [List.map_cons, List.count_cons, ih]
        by_cases heq : field.name = name <;> simp [heq]
    | unpaired => exact ih
    | broken read skipped => exact ih
    | other other => exact ih

theorem mem_namesOf_known {name : String} (hname : name ∈ layout.names)
    (members : List (Key × Value)) :
    name ∈ namesOf (layout.known members) ↔ valuesOf name members ≠ [] := by
  rw [← List.count_pos_iff, count_namesOf_known hname, List.length_pos_iff]

/-- No name comes twice if no name has two values. -/
theorem nodup_namesOf_known_iff {members : List (Key × Value)} (hnames : layout.names.Nodup) :
    (namesOf (layout.known members)).Nodup ↔
      ∀ name ∈ layout.names, (valuesOf name members).length ≤ 1 := by
  rw [List.nodup_iff_count_le_one]
  constructor
  · intro hcount name hname
    exact count_namesOf_known hname members ▸ hcount name
  · intro hlength name
    by_cases hname : name ∈ layout.names
    · exact count_namesOf_known hname members ▸ hlength name hname
    · have hnone : name ∉ namesOf (layout.known members) := by
        unfold namesOf
        rw [List.mem_map]
        rintro ⟨⟨field, value⟩, hstep, rfl⟩
        exact hname (List.mem_map_of_mem ((mem_known hnames).mp hstep).1)
      rw [List.count_eq_zero.mpr hnone]
      exact Nat.zero_le 1

theorem mem_present {field : Field α} {value : Value} :
    (field, value) ∈ layout.present part ↔
      field ∈ layout.fields ∧ part field.name = some value := by
  simp [present]

theorem pairwise_present {R : Field α → Field α → Prop} (h : layout.fields.Pairwise R) :
    (layout.present part).Pairwise fun a b => R a.1 b.1 := by
  refine h.filterMap _ fun first second hfields step hfirst other hsecond => ?_
  obtain ⟨_, -, rfl⟩ := Option.map_eq_some_iff.mp hfirst
  obtain ⟨_, -, rfl⟩ := Option.map_eq_some_iff.mp hsecond
  exact hfields

/-- The members that the layout knows are the parts that are there, in another order. -/
theorem known_perm_present {members : List (Key × Value)} (hnames : layout.names.Nodup)
    (hvalues : ∀ name ∈ layout.names, valuesOf name members = (part name).toList) :
    (layout.known members).Perm (layout.present part) := by
  have hlength : ∀ name ∈ layout.names, (valuesOf name members).length ≤ 1 := by
    intro name hname
    rw [hvalues name hname]
    cases part name <;> simp
  have hknown : (layout.known members).Nodup :=
    List.Nodup.of_map _ ((nodup_namesOf_known_iff hnames).mpr hlength)
  have hpresent : (layout.present part).Nodup :=
    (pairwise_present hnames.of_map).imp fun hne heq => hne (congrArg Prod.fst heq)
  refine (List.perm_ext_iff_of_nodup hknown hpresent).mpr fun ⟨field, value⟩ => ?_
  rw [mem_known hnames, mem_present]
  refine and_congr_right fun hfield => ?_
  rw [← mem_valuesOf, hvalues _ (List.mem_map_of_mem hfield), Option.mem_toList]

theorem missing?_eq_none_iff {seen : List String} :
    layout.missing? seen = none ↔
      ∀ field ∈ layout.fields, field.required → field.name ∈ seen := by
  simp [missing?]

theorem checkEnd_eq_ok_iff {fault : Option Json.Fault} {value : Unit} :
    checkEnd fault = .ok value ↔ fault = none := by
  cases fault <;> simp [checkEnd]

theorem read_object_eq_ok_iff {members : List (Key × Value)} {fault : Option Json.Fault}
    {defaults : α} :
    layout.read defaults (.object members fault) = .ok record ↔
      fault = none ∧ ∃ seen, layout.readMembers members [] defaults = .ok (seen, record) ∧
        ∀ field ∈ layout.fields, field.required → field.name ∈ seen := by
  rw [read, FirstError.bind_eq_ok_iff]
  constructor
  · rintro ⟨⟨seen, last⟩, hmembers, hend⟩
    obtain ⟨_, hfault, hmissing⟩ := FirstError.bind_eq_ok_iff.mp hend
    cases hfound : layout.missing? seen with
    | some field => simp [hfound] at hmissing
    -- A fault behind the members is found before a missing field is.
    | none =>
      simp only [hfound, Except.ok.injEq] at hmissing
      exact ⟨checkEnd_eq_ok_iff.mp hfault, seen, hmissing ▸ hmembers,
        missing?_eq_none_iff.mp hfound⟩
  · rintro ⟨rfl, seen, hmembers, hrequired⟩
    refine ⟨_, hmembers, ?_⟩
    simp only [missing?_eq_none_iff.mpr hrequired]
    rfl

theorem eq_toList_head? {values : List Value} (hlength : values.length ≤ 1) :
    values = values.head?.toList := by
  match values with
  | [] => rfl
  | [value] => rfl
  | _ :: _ :: _ => simp at hlength

/-- An object is read as the parts that it shows. -/
theorem read_object_eq_ok_iff_shows {members : List (Key × Value)} {fault : Option Json.Fault}
    {defaults : α} (hnames : layout.names.Nodup)
    (hcommutes : layout.fields.Pairwise Field.Commutes) :
    layout.read defaults (.object members fault) = .ok record ↔
      ∃ part, Shows layout.names part (.object members fault) ∧
        layout.fields.foldlM (readPart part) defaults = .ok record := by
  simp only [read_object_eq_ok_iff, readMembers_eq_ok_iff List.nodup_nil, List.append_nil,
    foldlM_readPart_eq_ok_iff]
  constructor
  · rintro ⟨rfl, seen, ⟨hpass, rfl, hnodup, hall⟩, hrequired⟩
    have hlength := (nodup_namesOf_known_iff hnames).mp (List.nodup_reverse.mp hnodup)
    have hvalues : ∀ name ∈ layout.names,
        valuesOf name members = (valuesOf name members).head?.toList :=
      fun name hname => eq_toList_head? (hlength name hname)
    have hperm := known_perm_present hnames hvalues
    refine ⟨fun name => (valuesOf name members).head?, .object hvalues hpass, ?_, ?_⟩
    · intro field hfield hneeded
      have hmem := hrequired field hfield hneeded
      rw [List.mem_reverse, mem_namesOf_known (List.mem_map_of_mem hfield)] at hmem
      simpa using hmem
    · exact (readAll_perm hperm.symm (pairwise_present hcommutes)).mpr hall
  · rintro ⟨part, hshows, hrequired, hall⟩
    cases hshows with
    | object hvalues hpass =>
      have hperm := known_perm_present hnames hvalues
      refine ⟨rfl, _, ⟨hpass, rfl, ?_, ?_⟩, ?_⟩
      · rw [List.nodup_reverse, nodup_namesOf_known_iff hnames]
        intro name hname
        rw [hvalues name hname]
        exact Option.length_toList_le
      · exact (readAll_perm hperm.symm (pairwise_present hcommutes)).mp hall
      · intro field hfield hneeded
        have hname : field.name ∈ layout.names := List.mem_map_of_mem hfield
        rw [List.mem_reverse, mem_namesOf_known hname, hvalues _ hname]
        simpa [Option.toList_eq_nil_iff] using hrequired field hfield hneeded

/-! ## Arrays -/

/-- Items are read with the fields that they meet, and the rest comes back. -/
theorem readItems_eq (fields : List (Field α)) (items : List Value) (record : α) :
    readItems fields items record =
      (readAll (fields.zip items) record).map (items.drop fields.length, ·) := by
  induction fields generalizing items record with
  | nil => cases items <;> rfl
  | cons field fields ih =>
    cases items with
    | nil => rfl
    | cons item items =>
      unfold readAll at ih ⊢
      rw [readItems, List.zip_cons_cons, List.foldlM_cons]
      cases field.read item record with
      | error error => rfl
      | ok next => exact ih items next

theorem read_array_eq_ok_iff {items : List Value} {fault : Option Json.Fault} {defaults : α} :
    layout.read defaults (.array items fault) = .ok record ↔
      fault = none ∧ items.length ≤ layout.fields.length ∧
        (layout.fields.drop items.length).any Field.required = false ∧
        readAll (layout.fields.zip items) defaults = .ok record := by
  rw [read, readItems_eq]
  cases hall : readAll (layout.fields.zip items) defaults with
  | error error => simp [Except.map]
  | ok last =>
    simp only [Except.map, FirstError.bind_ok, Except.ok.injEq, List.isEmpty_iff,
      List.drop_eq_nil_iff]
    by_cases hfew : items.length ≤ layout.fields.length
    · cases fault with
      | some fault => simp [hfew, checkEnd]
      | none => cases (layout.fields.drop items.length).any Field.required <;> simp [hfew, checkEnd]
    · simp [hfew]

/-- The items of an array are the parts that it shows. -/
theorem zip_eq_present {items : List Value}
    (hparts : ∀ (k : Nat) field, layout.fields[k]? = some field → part field.name = items[k]?) :
    layout.fields.zip items = layout.present part := by
  unfold present
  generalize layout.fields = fields at hparts
  induction fields generalizing items with
  | nil => rfl
  | cons field fields ih =>
    have hfirst := hparts 0 field rfl
    cases items with
    -- The fields that are left have no item, so none of them is present.
    | nil =>
      have hrest : fields.zip [] = _ := ih fun k other hother => hparts (k + 1) other hother
      rw [List.filterMap_cons_none (by rw [hfirst]; rfl), ← hrest, List.zip_nil_right,
        List.zip_nil_right]
    | cons item items =>
      rw [List.zip_cons_cons, List.filterMap_cons_some (by rw [hfirst]; rfl),
        ih fun k => hparts (k + 1)]

/-- The items reach far enough if no required part is left out. -/
theorem any_drop_eq_false_iff {items : List Value}
    (hparts : ∀ (k : Nat) field, layout.fields[k]? = some field → part field.name = items[k]?) :
    ((layout.fields.drop items.length).any Field.required) = false ↔
      ∀ field ∈ layout.fields, field.required → part field.name ≠ none := by
  rw [List.any_eq_false]
  constructor
  · intro hdrop field hfield hneeded hnone
    obtain ⟨k, hk⟩ := List.getElem?_of_mem hfield
    rw [hparts k field hk, List.getElem?_eq_none_iff] at hnone
    refine hdrop field ?_ hneeded
    rw [List.mem_iff_getElem?]
    exact ⟨k - items.length, by rwa [List.getElem?_drop, Nat.add_sub_of_le hnone]⟩
  · intro hrequired field hfield hneeded
    obtain ⟨k, hk⟩ := List.getElem?_of_mem hfield
    rw [List.getElem?_drop] at hk
    refine hrequired field (List.mem_of_getElem? hk) hneeded ?_
    rw [hparts _ field hk]
    exact List.getElem?_eq_none (Nat.le_add_right ..)

theorem getElem?_names {k : Nat} {name : String} :
    layout.names[k]? = some name ↔ ∃ field, layout.fields[k]? = some field ∧ field.name = name := by
  simp [names, Option.map_eq_some_iff]

theorem exists_parts {names : List String} (hnames : names.Nodup) (items : List Value) :
    ∃ part : String → Option Value,
      ∀ (k : Nat) name, names[k]? = some name → part name = items[k]? := by
  refine ⟨fun name => items[names.idxOf name]?, fun k name hname => ?_⟩
  obtain ⟨hk, rfl⟩ := List.getElem?_eq_some_iff.mp hname
  exact congrArg (items[·]?) (hnames.idxOf_getElem k hk)

/-- An array is read as the parts that it shows. -/
theorem read_array_eq_ok_iff_shows {items : List Value} {fault : Option Json.Fault} {defaults : α}
    (hnames : layout.names.Nodup) :
    layout.read defaults (.array items fault) = .ok record ↔
      ∃ part, Shows layout.names part (.array items fault) ∧
        layout.fields.foldlM (readPart part) defaults = .ok record := by
  have hlength : layout.names.length = layout.fields.length := List.length_map ..
  simp only [read_array_eq_ok_iff, foldlM_readPart_eq_ok_iff]
  constructor
  · -- The names are distinct, so items by position are parts by name.
    rintro ⟨rfl, hfew, hdrop, hall⟩
    obtain ⟨part, hparts⟩ := exists_parts hnames items
    have hfields : ∀ (k : Nat) field, layout.fields[k]? = some field →
        part field.name = items[k]? :=
      fun k field hfield => hparts k field.name (getElem?_names.mpr ⟨field, hfield, rfl⟩)
    refine ⟨part, .array (hlength ▸ hfew) hparts, ?_, ?_⟩
    · exact (any_drop_eq_false_iff hfields).mp hdrop
    · rwa [← zip_eq_present hfields]
  · rintro ⟨part, hshows, hrequired, hall⟩
    cases hshows with
    | array hfew hparts =>
      have hfields : ∀ (k : Nat) field, layout.fields[k]? = some field →
          part field.name = items[k]? :=
        fun k field hfield => hparts k field.name (getElem?_names.mpr ⟨field, hfield, rfl⟩)
      refine ⟨rfl, hlength ▸ hfew, (any_drop_eq_false_iff hfields).mpr hrequired, ?_⟩
      rwa [zip_eq_present hfields]

/-! ## Records -/

/-- A value is read as the parts that it shows, in the order of the layout. -/
theorem read_eq_ok_iff {value : Value} {defaults : α} (hnames : layout.names.Nodup)
    (hcommutes : layout.fields.Pairwise Field.Commutes) :
    layout.read defaults value = .ok record ↔
      ∃ part, Shows layout.names part value ∧
        layout.fields.foldlM (readPart part) defaults = .ok record := by
  cases value with
  | object members fault => exact read_object_eq_ok_iff_shows hnames hcommutes
  | array items fault => exact read_array_eq_ok_iff_shows hnames
  | _ =>
    constructor
    · intro hread
      simp only [read] at hread
      split at hread <;> cases hread
    · rintro ⟨part, hshows, -⟩
      cases hshows

/-! ## Fields that set a component -/

/-- What is there is as it should be, or nothing is there and the default is meant. -/
def OrDefault (given : Option Value) (IsRight : Value → Prop) (isDefault : Prop) : Prop :=
  match given with
  | some value => IsRight value
  | none => isDefault

variable {β γ : Type} {name : String} {leaf : Value → Except ReadError β}

theorem readPart_required_bind_iff (put : β → α → α) {next : α → Except ReadError α} :
    (readPart part record ⟨name, true, fun value r => do return put (← leaf value) r⟩ >>= next) =
        .ok result ↔
      ∃ x, (∃ value, part name = some value ∧ leaf value = .ok x) ∧
        next (put x record) = .ok result := by
  unfold readPart
  cases part name with
  | none => simp
  | some value => simp [FirstError.bind_eq_ok_iff, pure, Except.pure]

theorem readPart_optional_bind_iff (get : α → β) (put : β → α → α)
    (hput : ∀ record, put (get record) record = record) {next : α → Except ReadError α} :
    (readPart part record ⟨name, false, fun value r => do return put (← leaf value) r⟩ >>= next) =
        .ok result ↔
      ∃ x, OrDefault (part name) (leaf · = .ok x) (x = get record) ∧
        next (put x record) = .ok result := by
  unfold readPart
  cases part name with
  | none => simp [OrDefault, hput]
  | some value => simp [FirstError.bind_eq_ok_iff, pure, Except.pure, OrDefault]

/-- Fields that set different components can be read in either order. -/
theorem commutes_of_put {other : String} {required needed : Bool} {put : β → α → α}
    {branch : Value → Except ReadError γ} {set : γ → α → α}
    (hput : ∀ x y record, set y (put x record) = put x (set y record)) :
    Field.Commutes ⟨name, required, fun value r => do return put (← leaf value) r⟩
      ⟨other, needed, fun value r => do return set (← branch value) r⟩ := by
  intro a b record result
  simp only [FirstError.bind_eq_ok_iff]
  cases leaf a <;> cases branch b <;> simp [pure, Except.pure, hput]

end Layout

end LintRepair.Report
