import Mathlib.Data.List.Forall2

/-!
# Runs that stop at the first error

A check of a list goes through its items in order and ends at the first one that fails.  What it
answers is said here in terms of the items: all of them pass, or the answer is that of an item
before which all pass (`forM_eq_ok_iff`, `forM_eq_error_iff`).  Reading a list is the same with
values: `mapM_eq_ok_iff` and `mapM_eq_error_iff`.
-/

namespace LintRepair.FirstError

variable {α β ε φ : Type}

@[simp] theorem bind_ok (value : α) (next : α → Except ε β) :
    (Except.ok value >>= next) = next value := rfl

@[simp] theorem bind_error (error : ε) (next : α → Except ε β) :
    ((Except.error error : Except ε α) >>= next) = .error error := rfl

theorem throw_ne_ok (error : ε) (value : α) : (throw error : Except ε α) ≠ .ok value :=
  fun h => nomatch h

theorem bind_eq_ok_iff {result : Except ε α} {next : α → Except ε β} {value : β} :
    (result >>= next) = .ok value ↔ ∃ between, result = .ok between ∧ next between = .ok value := by
  cases result <;> simp

theorem map_eq_ok_iff {result : Except ε α} {f : α → β} {value : β} :
    result.map f = .ok value ↔ ∃ between, result = .ok between ∧ f between = value := by
  cases result <;> simp [Except.map]

@[simp] theorem mapError_ok (value : α) (f : ε → φ) :
    (Except.ok value).mapError f = .ok value := rfl

@[simp] theorem mapError_error (error : ε) (f : ε → φ) :
    (Except.error error : Except ε α).mapError f = .error (f error) := rfl

theorem mapError_eq_ok_iff {result : Except ε α} {f : ε → φ} {value : α} :
    result.mapError f = .ok value ↔ result = .ok value := by
  cases result <;> simp

theorem mapError_eq_error_iff {result : Except ε α} {f : ε → φ} {error : φ} :
    result.mapError f = .error error ↔ ∃ cause, result = .error cause ∧ f cause = error := by
  cases result <;> simp

theorem forM_eq_ok_iff {items : List α} {check : α → Except ε Unit} :
    items.forM check = .ok () ↔ ∀ item ∈ items, check item = .ok () := by
  induction items with
  | nil => simp [pure, Except.pure]
  | cons item rest ih =>
      rw [List.forM_eq_forM] at ih ⊢
      rw [List.forM_cons, List.forall_mem_cons, ← ih]
      cases check item with
      | ok value => simp
      | error error => simp

/-- A check fails with the error of the first item that does. -/
theorem forM_eq_error_iff {items : List α} {check : α → Except ε Unit} {error : ε} :
    items.forM check = .error error ↔
      ∃ front item back, items = front ++ item :: back ∧
        (∀ other ∈ front, check other = .ok ()) ∧ check item = .error error := by
  induction items with
  | nil => simp [pure, Except.pure]
  | cons first rest ih =>
      rw [List.forM_eq_forM] at ih ⊢
      rw [List.forM_cons]
      constructor
      · intro hfails
        cases hfirst : check first with
        -- Nothing behind an item that fails is looked at.
        | error cause =>
            rw [hfirst, bind_error, Except.error.injEq] at hfails
            exact ⟨[], first, rest, rfl, by simp, hfails ▸ hfirst⟩
        | ok value =>
            rw [hfirst, bind_ok, ih] at hfails
            obtain ⟨front, item, back, rfl, hfront, hitem⟩ := hfails
            exact ⟨first :: front, item, back, rfl, List.forall_mem_cons.mpr ⟨hfirst, hfront⟩,
              hitem⟩
      · rintro ⟨front, item, back, hitems, hfront, hitem⟩
        cases front with
        | nil =>
            obtain ⟨rfl, rfl⟩ := List.cons.inj hitems
            rw [hitem, bind_error]
        | cons other front =>
            obtain ⟨rfl, rfl⟩ := List.cons.inj hitems
            rw [List.forall_mem_cons] at hfront
            rw [hfront.1, bind_ok, ih]
            exact ⟨front, item, back, rfl, hfront.2, hitem⟩

/-- What each item is read as makes up what they are read as together. -/
theorem mapM_map_eq_ok {γ : Type} {items : List α} {written : α → γ} {read : γ → Except ε β}
    {meaning : α → β} (hread : ∀ item ∈ items, read (written item) = .ok (meaning item)) :
    (items.map written).mapM read = .ok (items.map meaning) := by
  induction items with
  | nil => rfl
  | cons item rest ih =>
      rw [List.forall_mem_cons] at hread
      rw [List.map_cons, List.mapM_cons, hread.1, bind_ok, ih hread.2, bind_ok]
      rfl

/-- A list is read as what its items are read as, one by one. -/
theorem mapM_eq_ok_iff {items : List α} {f : α → Except ε β} {values : List β} :
    items.mapM f = .ok values ↔
      List.Forall₂ (fun item value => f item = .ok value) items values := by
  induction items generalizing values with
  | nil =>
      rw [List.mapM_nil, List.forall₂_nil_left_iff]
      exact ⟨fun h => (Except.ok.inj h).symm, fun h => h ▸ rfl⟩
  | cons item rest ih =>
      rw [List.mapM_cons, List.forall₂_cons_left_iff]
      simp only [bind_eq_ok_iff, ih]
      constructor
      · rintro ⟨value, hitem, others, hrest, hvalues⟩
        exact ⟨value, others, hitem, hrest, (Except.ok.inj hvalues).symm⟩
      · rintro ⟨value, others, hitem, hrest, rfl⟩
        exact ⟨value, hitem, others, hrest, rfl⟩

/-- Reading a list in two rounds is reading its items in two steps. -/
theorem mapM_bind_eq_ok_iff {γ : Type} {items : List α} {f : α → Except ε β} {g : β → Except ε γ}
    {values : List γ} :
    (items.mapM fun item => f item >>= g) = .ok values ↔
      ∃ between, items.mapM f = .ok between ∧ between.mapM g = .ok values := by
  simp only [mapM_eq_ok_iff, bind_eq_ok_iff]
  induction items generalizing values with
  | nil => simp
  | cons item rest ih =>
      simp only [List.forall₂_cons_left_iff, ih]
      constructor
      · rintro ⟨value, others, ⟨first, hfirst, hvalue⟩, ⟨between, hbetween, hothers⟩, rfl⟩
        exact ⟨_, ⟨first, between, hfirst, hbetween, rfl⟩, .cons hvalue hothers⟩
      · rintro ⟨_, ⟨first, between, hfirst, hbetween, rfl⟩, hvalues⟩
        obtain ⟨value, others, hvalue, hothers, rfl⟩ := List.forall₂_cons_left_iff.mp hvalues
        exact ⟨value, others, ⟨first, hfirst, hvalue⟩, ⟨between, hbetween, hothers⟩, rfl⟩

/-- One more item is read to one more value in its place. -/
theorem mapM_insert {front back : List α} {item : α} {f : α → Except ε β} {values : List β}
    (hvalues : (front ++ back).mapM f = .ok values) :
    (front ++ item :: back).mapM f = (f item).map fun value =>
      values.take front.length ++ value :: values.drop front.length := by
  rw [List.mapM_append, bind_eq_ok_iff] at hvalues
  obtain ⟨first, hfirst, hlast⟩ := hvalues
  obtain ⟨last, hback, hall⟩ := bind_eq_ok_iff.mp hlast
  obtain rfl := Except.ok.inj hall
  have hlength : front.length = first.length := (mapM_eq_ok_iff.mp hfirst).length_eq
  rw [List.mapM_append, hfirst, bind_ok, List.mapM_cons, hback, hlength, List.take_left,
    List.drop_left]
  cases f item <;> rfl

/-- Lists whose items are read alike, one by one, are read alike. -/
theorem mapM_congr {γ : Type} {items : List α} {others : List γ} {f : α → Except ε β}
    {g : γ → Except ε β} (hitems : List.Forall₂ (fun item other => f item = g other) items others) :
    items.mapM f = others.mapM g := by
  induction hitems with
  | nil => rfl
  | cons hfirst _ ih => rw [List.mapM_cons, List.mapM_cons, hfirst, ih]

/-! ## Results whose value does not matter -/

/-- Whether there is a value, and the error if there is none. -/
def verdict (result : Except ε α) : Except ε Unit :=
  result.map fun _ => ()

@[simp] theorem verdict_ok (value : α) : verdict (Except.ok value : Except ε α) = .ok () := rfl

@[simp] theorem verdict_error (error : ε) :
    verdict (Except.error error : Except ε α) = .error error := rfl

theorem verdict_eq_ok_iff {result : Except ε α} :
    verdict result = .ok () ↔ ∃ value, result = .ok value := by
  cases result <;> simp

theorem verdict_eq_error_iff {result : Except ε α} {error : ε} :
    verdict result = .error error ↔ result = .error error := by
  cases result <;> simp

theorem verdict_unit (result : Except ε Unit) : verdict result = result := by
  cases result <;> rfl

/-- What is made of a value in the end does not matter. -/
theorem verdict_bind_pure (result : Except ε α) (make : α → β) :
    verdict (result >>= fun value => pure (make value)) = verdict result := by
  cases result <;> rfl

theorem verdict_mapError (result : Except ε α) (f : ε → φ) :
    verdict (result.mapError f) = (verdict result).mapError f := by
  cases result <;> rfl

/-- A list is done with as soon as one of its items has an error. -/
theorem verdict_mapM (items : List α) (f : α → Except ε β) :
    verdict (items.mapM f) = items.forM fun item => verdict (f item) := by
  induction items with
  | nil => rfl
  | cons item rest ih =>
      rw [List.forM_eq_forM] at ih ⊢
      rw [List.mapM_cons, List.forM_cons, ← ih]
      cases f item with
      | error error => rfl
      | ok value =>
          rw [bind_ok, verdict_ok, bind_ok]
          exact verdict_bind_pure ..

/-- A list has the error of the first item that cannot be read. -/
theorem mapM_eq_error_iff {items : List α} {f : α → Except ε β} {error : ε} :
    items.mapM f = .error error ↔
      ∃ front item back, items = front ++ item :: back ∧
        (∀ other ∈ front, ∃ value, f other = .ok value) ∧ f item = .error error := by
  rw [← verdict_eq_error_iff, verdict_mapM, forM_eq_error_iff]
  simp only [verdict_eq_ok_iff, verdict_eq_error_iff]

theorem forM_flatMap (items : List α) (parts : α → List β) (check : β → Except ε Unit) :
    (items.flatMap parts).forM check = items.forM fun item => (parts item).forM check := by
  induction items with
  | nil => rfl
  | cons item rest ih =>
      simp only [List.forM_eq_forM] at ih ⊢
      rw [List.flatMap_cons, List.forM_append, List.forM_cons, ih]

end LintRepair.FirstError
