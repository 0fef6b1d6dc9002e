import Mathlib.Data.List.DropRight
import Mathlib.Data.List.Forall2
import Mathlib.Data.List.TakeWhile
import Mathlib.Tactic.Common
import LintRepair.Text.Blank

/-!
# Words between blanks

What people write for a name is read in two steps: blanks at the ends are dropped, and letter case
is passed over.  Both steps are said here by their results.

* `trim_eq_iff`: trimming gives the one part of a text that has nothing but blanks on either side
  and neither begins nor ends with one (`IsCore`).
* `lower_eq_lower_iff`: two texts are the same in small letters exactly if they agree character by
  character, up to the case of the letters of ASCII (`SameLetter`).

A text `Spells` a name if its core agrees with the name character by character, by a notion of
agreement that every kind of name brings along.
-/

namespace LintRepair.Text

variable {text core : String} {front middle back : List Char} {c d : Char}

/-! ## Blanks at the ends -/

/-- What a text has between blanks: on either side of the core there is nothing but blanks, and the
core neither begins nor ends with one. -/
structure IsCore (text core : String) : Prop where
  exists_blanks : ∃ front back : List Char, (∀ c ∈ front, isBlank c = true) ∧
    (∀ c ∈ back, isBlank c = true) ∧ text.toList = front ++ core.toList ++ back
  head : ∀ c, core.toList.head? = some c → isBlank c = false
  last : ∀ c, core.toList.getLast? = some c → isBlank c = false

/-- Characters without the blanks at either end. -/
def withoutBlanks (chars : List Char) : List Char :=
  (chars.dropWhile isBlank).rdropWhile isBlank

theorem toList_trim (text : String) : (trim text).toList = withoutBlanks text.toList :=
  String.toList_ofList

theorem dropWhile_isBlank_append (hfront : ∀ c ∈ front, isBlank c = true)
    (hback : ∀ c, back.head? = some c → isBlank c = false) :
    (front ++ back).dropWhile isBlank = back := by
  rw [List.dropWhile_append_of_pos hfront]
  cases back with
  | nil => rfl
  | cons c rest => rw [List.dropWhile_cons_of_neg (by simp [hback c rfl])]

theorem rdropWhile_isBlank_append (hback : ∀ c ∈ back, isBlank c = true)
    (hfront : ∀ c, front.getLast? = some c → isBlank c = false) :
    (front ++ back).rdropWhile isBlank = front := by
  rw [List.rdropWhile, List.reverse_append, dropWhile_isBlank_append, List.reverse_reverse]
  · simpa using hback
  · simpa using hfront

/-- Blanks on either side are dropped, and nothing of what stands between them. -/
theorem withoutBlanks_append (hfront : ∀ c ∈ front, isBlank c = true)
    (hback : ∀ c ∈ back, isBlank c = true)
    (hhead : ∀ c, middle.head? = some c → isBlank c = false)
    (hlast : ∀ c, middle.getLast? = some c → isBlank c = false) :
    withoutBlanks (front ++ middle ++ back) = middle := by
  unfold withoutBlanks
  by_cases hempty : middle = []
  · have hall : ∀ c ∈ front ++ back, isBlank c = true := List.forall_mem_append.mpr ⟨hfront, hback⟩
    rw [hempty, List.append_nil, List.dropWhile_eq_nil_iff.mpr hall, List.rdropWhile_nil]
  · have hboth : (middle ++ back).head? = middle.head? := List.head?_append_of_ne_nil _ hempty
    rw [List.append_assoc, dropWhile_isBlank_append hfront (by rwa [hboth]),
      rdropWhile_isBlank_append hback hlast]

theorem isCore_trim (text : String) : IsCore text (trim text) := by
  have hprefix : withoutBlanks text.toList <+: text.toList.dropWhile isBlank :=
    List.rdropWhile_prefix _ _
  constructor
  · refine ⟨text.toList.takeWhile isBlank, (text.toList.dropWhile isBlank).rtakeWhile isBlank,
      fun c => List.mem_takeWhile_imp, fun c => List.mem_rtakeWhile_imp, ?_⟩
    -- The text is the blanks that go in front, what is kept, and the blanks that go behind.
    rw [toList_trim, withoutBlanks, List.append_assoc, List.rdropWhile_append_rtakeWhile,
      List.takeWhile_append_dropWhile]
  · intro c hc
    rw [toList_trim] at hc
    obtain ⟨rest, hrest⟩ := List.head?_eq_some_iff.mp hc
    obtain ⟨back, hback⟩ := hprefix
    have hhead := List.head?_dropWhile_not isBlank text.toList
    rw [← hback, hrest] at hhead
    exact hhead
  · intro c hc
    rw [toList_trim] at hc
    have hne : withoutBlanks text.toList ≠ [] := by
      rintro hnil
      rw [hnil] at hc
      exact absurd hc (by simp)
    rw [List.getLast?_eq_some_getLast hne, Option.some.injEq] at hc
    have hlast := List.rdropWhile_last_not isBlank _ hne
    rw [← hc]
    exact Bool.not_eq_true _ ▸ hlast

/-- A text has one core, and trimming finds it. -/
theorem trim_eq_iff : trim text = core ↔ IsCore text core := by
  constructor
  · rintro rfl
    exact isCore_trim text
  · rintro ⟨⟨front, back, hfront, hback, htext⟩, hhead, hlast⟩
    rw [← String.toList_inj, toList_trim, htext, withoutBlanks_append hfront hback hhead hlast]

instance : Decidable (IsCore text core) :=
  decidable_of_iff (trim text = core) trim_eq_iff

theorem isEmpty_trim_iff : (trim text).isEmpty = true ↔ ∀ c ∈ text.toList, isBlank c = true := by
  rw [String.isEmpty_iff, trim_eq_iff]
  constructor
  · rintro ⟨⟨front, back, hfront, hback, htext⟩, -, -⟩
    rw [htext]
    simpa [or_imp, forall_and] using ⟨hfront, hback⟩
  · intro hall
    exact ⟨⟨text.toList, [], hall, by simp, by simp⟩, by simp, by simp⟩

/-! ## Letter case -/

/-- A capital letter of ASCII and its small one. -/
def IsCapitalOf (c d : Char) : Prop :=
  'A' ≤ c ∧ c ≤ 'Z' ∧ d.toNat = c.toNat + 32

/-- Whether characters are the same up to the case of letters of ASCII. -/
def SameLetter (c d : Char) : Prop :=
  c = d ∨ IsCapitalOf c d ∨ IsCapitalOf d c

instance : Decidable (IsCapitalOf c d) :=
  inferInstanceAs (Decidable (_ ∧ _ ∧ _))

instance : Decidable (SameLetter c d) :=
  inferInstanceAs (Decidable (_ ∨ _ ∨ _))

theorem toNat_toLower (c : Char) :
    c.toLower.toNat = if 'A' ≤ c ∧ c ≤ 'Z' then c.toNat + 32 else c.toNat := by
  unfold Char.toLower
  split
  next hcapital =>
    have hupper : c.val.toNat ≤ 90 := UInt32.le_iff_toNat_le.mp hcapital.2
    have hdistance : ('a'.val - 'A'.val).toNat = 32 := rfl
    have hsum : (c.val + ('a'.val - 'A'.val)).toNat = c.val.toNat + 32 := by
      rw [UInt32.toNat_add, hdistance, Nat.mod_eq_of_lt (by omega)]
    rw [if_pos (show 'A' ≤ c ∧ c ≤ 'Z' from hcapital)]
    exact hsum
  next hother => rw [if_neg (show ¬ ('A' ≤ c ∧ c ≤ 'Z') from hother)]

theorem toLower_eq_toLower_iff : c.toLower = d.toLower ↔ SameLetter c d := by
  have hle : ∀ {a b : Char}, a ≤ b ↔ a.toNat ≤ b.toNat := UInt32.le_iff_toNat_le
  have hfirst : 'A'.toNat = 65 := rfl
  have hlast : 'Z'.toNat = 90 := rfl
  unfold SameLetter IsCapitalOf
  rw [← Char.toNat_inj, ← Char.toNat_inj, toNat_toLower, toNat_toLower]
  simp only [hle, hfirst, hlast]
  split <;> split <;> omega

/-! ## Spellings of a name -/

/-- Whether a text is a name between blanks, where characters agree by `Same`. -/
def Spells (Same : Char → Char → Prop) (text name : String) : Prop :=
  ∃ core, IsCore text core ∧ List.Forall₂ Same core.toList name.toList

theorem spells_iff {Same : Char → Char → Prop} {name : String} :
    Spells Same text name ↔ List.Forall₂ Same (trim text).toList name.toList := by
  unfold Spells
  simp only [← trim_eq_iff, exists_eq_left']

instance {Same : Char → Char → Prop} [DecidableRel Same] {name : String} :
    Decidable (Spells Same text name) :=
  decidable_of_iff _ spells_iff.symm

/-- Characters that are read one by one are read as a name if each is read as the one of the name in
its place. -/
theorem map_eq_iff_forall₂ {read : Char → Char} {Same : Char → Char → Prop}
    {chars name : List Char} (hread : ∀ c, ∀ d ∈ name, read c = d ↔ Same c d) :
    chars.map read = name ↔ List.Forall₂ Same chars name := by
  induction name generalizing chars with
  | nil => rw [List.map_eq_nil_iff, List.forall₂_nil_right_iff]
  | cons d name ih =>
      have hrest : ∀ c, ∀ e ∈ name, read c = e ↔ Same c e :=
        fun c e he => hread c e (List.mem_cons_of_mem d he)
      cases chars with
      | nil => simp
      | cons c chars =>
          rw [List.map_cons, List.cons.injEq, List.forall₂_cons, ih hrest,
            hread c d List.mem_cons_self]

/-- Reading what is left between blanks gives the names that a text spells. -/
theorem map_trim_eq_iff_spells {read : Char → Char} {Same : Char → Char → Prop} {name : String}
    (hread : ∀ c, ∀ d ∈ name.toList, read c = d ↔ Same c d) :
    (trim text).map read = name ↔ Spells Same text name := by
  rw [spells_iff, ← String.toList_inj, String.toList_map, map_eq_iff_forall₂ hread]

end LintRepair.Text
