import Mathlib.Data.List.Basic
import Mathlib.Tactic.Common
import LintRepair.Json.Print
import LintRepair.Json.Read

/-!
# Compact JSON is read back

The compact text of a value is read as that value (`ofText_compact`) if the value is there in full:
a reader stops at the first fault, and a number that is no integer has no digits to be read back
from.  Strings and numbers are read to their end whatever follows, except that a number ends only
where no character follows that could continue it (`EndsNumber`).  In a compact text that is always
so, as a comma, a bracket or nothing follows.

Reader and writer recurse over different data, fuel and values.  The induction is on the fuel, which
the length of the text bounds: every item is shorter than the text that it is in.
-/

namespace LintRepair.Json

/-! ## Strings -/

theorem hexNumber?_control {n : Nat} (hn : n < 32) :
    Text.hexNumber? ['0', '0', hexDigitChar (n / 16), hexDigitChar n] = some n := by
  revert n
  decide

theorem codeUnit_control {n : Nat} (hn : n < 32) (tail : List Char) :
    codeUnit ('0' :: '0' :: hexDigitChar (n / 16) :: hexDigitChar n :: tail) = .ok n := by
  unfold codeUnit
  simp only [List.take_succ_cons, List.take_zero, hexNumber?_control hn]
  rfl

variable {seen tail : List Char} {c letter : Char}

theorem readText_letter (hu : letter ≠ 'u') (hletter : escaped? letter = some c) :
    readText (.ok seen) ('\\' :: letter :: tail) = readText (.ok (c :: seen)) tail := by
  rw [readText]
  · rw [hletter]
    rfl
  · exact hu

theorem readText_control (hcontrol : c < ' ') :
    readText (.ok seen)
        ('\\' :: 'u' :: '0' :: '0' :: hexDigitChar (c.toNat / 16) :: hexDigitChar c.toNat :: tail) =
      readText (.ok (c :: seen)) tail := by
  have hlt : c.toNat < 32 := hcontrol
  have htrailing : isTrailing c.toNat = false := by
    unfold isTrailing
    simp
    omega
  have hleading : isLeading c.toNat = false := by
    unfold isLeading
    simp
    omega
  rw [readText, codeUnit_control hlt]
  simp only [htrailing, hleading, Bool.false_eq_true, if_false, Char.ofNat_toNat]
  rfl

theorem readText_plain (hquote : c ≠ '"') (hescape : c ≠ '\\') (hcontrol : ¬ c < ' ') :
    readText (.ok seen) (c :: tail) = readText (.ok (c :: seen)) tail := by
  rw [readText]
  · rw [if_neg hcontrol]
    rfl
  · exact hquote
  · exact fun h => absurd h hescape
  · exact fun _ h => absurd h hescape
  · exact fun _ _ h => absurd h hescape

/-- A character is read back from the way in which it is written. -/
theorem readText_escapedChar (seen : List Char) (c : Char) (tail : List Char) :
    readText (.ok seen) (escapedChar c ++ tail) = readText (.ok (c :: seen)) tail := by
  unfold escapedChar
  split
  -- What has no letter of its own is a control character or stands for itself.
  case h_8 hquote hescape _ _ _ _ _ =>
    split
    next hcontrol => exact readText_control hcontrol
    next hcontrol => exact readText_plain hquote hescape hcontrol
  all_goals exact readText_letter (by decide) rfl

theorem readText_flatMap_escapedChar (seen chars tail : List Char) :
    readText (.ok seen) (chars.flatMap escapedChar ++ '"' :: tail) =
      (.text (String.ofList (seen.reverse ++ chars)), tail) := by
  induction chars generalizing seen with
  | nil =>
    rw [List.flatMap_nil, List.nil_append, readText, List.append_nil]
    rfl
  | cons c chars ih =>
    rw [List.flatMap_cons, List.append_assoc, readText_escapedChar, ih, List.reverse_cons,
      List.append_assoc, List.singleton_append]

/-! ## Numbers -/

/-- The digits of a number in the decimal system, as their values. -/
def decimalDigits (n : Nat) : List Nat :=
  (Nat.toDigits 10 n).map Text.digitValue

theorem ofDigits_decimalDigits (n : Nat) : Text.ofDigits 10 (decimalDigits n) = n := by
  calc Text.ofDigits 10 (decimalDigits n)
      = Nat.ofDigitChars 10 (Nat.toDigits 10 n) 0 := by
        unfold Text.ofDigits decimalDigits Nat.ofDigitChars
        rw [List.foldl_map]
        simp only [Nat.mul_comm 10]
        rfl
    _ = n := Nat.ofDigitChars_ten_toDigits

/-- Only zero itself begins with a zero. -/
theorem decimalDigits_ne_zero_cons (n digit : Nat) (digits : List Nat) :
    decimalDigits n ≠ 0 :: digit :: digits := by
  induction n using Nat.strongRecOn generalizing digit digits with
  | ind n ih =>
    rcases Nat.lt_or_ge n 10 with hsmall | hlarge
    · unfold decimalDigits
      rw [Nat.toDigits_of_lt_base hsmall]
      simp
    · have hfront : decimalDigits n =
          decimalDigits (n / 10) ++ [Text.digitValue (n % 10).digitChar] := by
        unfold decimalDigits
        rw [Nat.toDigits_of_base_le (by decide) hlarge, List.map_append, List.map_singleton]
      intro hzero
      rw [hfront] at hzero
      -- The digits before the last one are those of a smaller number, which is not zero.
      have hvalue := ofDigits_decimalDigits (n / 10)
      cases hdigits : decimalDigits (n / 10) with
      | nil =>
        rw [hdigits] at hvalue
        have : n / 10 = 0 := hvalue.symm
        omega
      | cons first rest =>
        rw [hdigits, List.cons_append, List.cons.injEq] at hzero
        cases rest with
        | nil =>
          rw [hdigits, hzero.1] at hvalue
          have : n / 10 = 0 := hvalue.symm
          omega
        | cons second rest => exact ih (n / 10) (by omega) second rest (hzero.1 ▸ hdigits)

/-- No character at the front that would continue a number. -/
def EndsNumber (chars : List Char) : Prop :=
  ∀ c ∈ chars.head?, c.isDigit = false ∧ c ≠ '.' ∧ c ≠ 'e' ∧ c ≠ 'E'

theorem takeDigits_append {chars tail : List Char} (hdigits : ∀ c ∈ chars, c.isDigit = true)
    (htail : EndsNumber tail) :
    takeDigits (chars ++ tail) = (chars.map Text.digitValue, tail) := by
  have hstop : tail.takeWhile Char.isDigit = [] ∧ tail.dropWhile Char.isDigit = tail := by
    cases tail with
    | nil => exact ⟨rfl, rfl⟩
    | cons c tail =>
      have hc : ¬ c.isDigit = true := by
        rw [(htail c rfl).1]
        exact Bool.false_ne_true
      exact ⟨List.takeWhile_cons_of_neg hc, List.dropWhile_cons_of_neg hc⟩
  unfold takeDigits
  rw [List.takeWhile_append_of_pos hdigits, List.dropWhile_append_of_pos hdigits, hstop.1, hstop.2,
    List.append_nil]

theorem readExponent_of_endsNumber {tail : List Char} (literal : Literal)
    (htail : EndsNumber tail) :
    readExponent literal tail = (.number (.ofLiteral literal), tail) := by
  cases tail with
  | nil => rfl
  | cons c tail =>
    obtain ⟨-, -, he, hE⟩ := htail c rfl
    exact if_neg (not_or.mpr ⟨he, hE⟩)

theorem readNumber_toDigits {tail : List Char} (negative : Bool) (n : Nat)
    (htail : EndsNumber tail) :
    readNumber negative (Nat.toDigits 10 n ++ tail) =
      (.number (.ofLiteral { negative, whole := decimalDigits n }), tail) := by
  have htake : takeDigits (Nat.toDigits 10 n ++ tail) = (decimalDigits n, tail) :=
    takeDigits_append (fun c hc => Nat.isDigit_of_mem_toDigits (by decide) (by decide) hc) htail
  have hne : decimalDigits n ≠ [] := by
    unfold decimalDigits
    rw [ne_eq, List.map_eq_nil_iff]
    exact Nat.toDigits_ne_nil
  unfold readNumber
  rw [htake]
  -- There are digits, no zero stands before others, and no point follows.
  split
  next hempty => exact absurd (Prod.mk.inj hempty).1 hne
  next _ digit digits _ hzero =>
    exact absurd (Prod.mk.inj hzero).1 (decimalDigits_ne_zero_cons n digit digits)
  next whole rest hpoint =>
    obtain ⟨-, rfl⟩ := Prod.mk.inj hpoint
    exact absurd rfl (htail '.' rfl).2.1
  next whole rest hrest =>
    obtain ⟨rfl, rfl⟩ := Prod.mk.inj hrest
    exact readExponent_of_endsNumber _ htail

/-- The numbers that are written with all their digits. -/
def Number.IsInteger : Number → Prop
  | .natural n => n < UInt64.size
  | .negative n => 0 < n ∧ n ≤ 0x8000000000000000
  | .float .. | .outOfRange => False

theorem ofLiteral_natural {n : Nat} (hn : n < UInt64.size) :
    Number.ofLiteral { negative := false, whole := decimalDigits n } = .natural n := by
  unfold Number.ofLiteral
  simp only [ofDigits_decimalDigits]
  rw [if_pos (by simpa using hn)]

theorem ofLiteral_negative {n : Nat} (hpos : 0 < n) (hn : n ≤ 0x8000000000000000) :
    Number.ofLiteral { negative := true, whole := decimalDigits n } = .negative n := by
  unfold Number.ofLiteral
  simp only [ofDigits_decimalDigits]
  rw [if_neg (by simp), if_pos (by simpa using ⟨hpos, hn⟩)]

/-! ## Values -/

mutual

/-- A value that is there in full: all its numbers are integers in range, all keys are strings, and
no part of it is missing. -/
def Value.IsWhole : Value → Prop
  | .null | .bool _ | .text _ => True
  | .number value => value.IsInteger
  | .array items fault => fault = none ∧ ItemsWhole items
  | .object members fault => fault = none ∧ MembersWhole members
  | .unpaired | .broken .. => False

def ItemsWhole : List Value → Prop
  | [] => True
  | item :: rest => item.IsWhole ∧ ItemsWhole rest

def MembersWhole : List (Key × Value) → Prop
  | [] => True
  | (key, value) :: rest => (∃ name, key = .text name) ∧ value.IsWhole ∧ MembersWhole rest

end

namespace Value

/-- A list is there in full if all its items are. -/
theorem isWhole_list {items : List Value} :
    (list items).IsWhole ↔ ∀ item ∈ items, item.IsWhole := by
  rw [list, IsWhole, eq_self_iff_true, true_and]
  induction items with
  | nil => simp [ItemsWhole]
  | cons item rest ih => rw [ItemsWhole, List.forall_mem_cons, ih]

/-- A record is there in full if all its values are. -/
theorem isWhole_record {members : List (String × Value)} :
    (record members).IsWhole ↔ ∀ member ∈ members, member.2.IsWhole := by
  rw [record, IsWhole, eq_self_iff_true, true_and]
  induction members with
  | nil => simp [MembersWhole]
  | cons member rest ih =>
    rw [List.map_cons, MembersWhole, List.forall_mem_cons, ih]
    exact and_iff_right ⟨member.1, rfl⟩

end Value

variable {fuel : Nat} {value : Value} {items : List Value} {members : List (Key × Value)}

theorem skipSpace_cons (hc : isSpace c = false) : skipSpace (c :: tail) = c :: tail :=
  List.dropWhile_cons_of_neg (by rw [hc]; exact Bool.false_ne_true)

theorem isSpace_of_isDigit (hc : c.isDigit = true) : isSpace c = false := by
  by_contra hspace
  rw [Bool.not_eq_false] at hspace
  simp only [isSpace, Bool.or_eq_true, beq_iff_eq] at hspace
  rcases hspace with ((rfl | rfl) | rfl) | rfl <;> exact absurd hc (by decide)

theorem Value.IsWhole.skipFault?_eq (hvalue : value.IsWhole) : value.skipFault? = none := by
  cases value with
  | array items fault => exact hvalue.1
  | object members fault => exact hvalue.1
  | broken read skipped => exact hvalue.elim
  | _ => rfl

theorem Number.IsInteger.chars_eq_cons {number : Number} (hnumber : number.IsInteger) :
    ∃ c chars, number.chars = c :: chars ∧ (c = '-' ∨ c.isDigit = true) := by
  cases number with
  | natural n =>
    obtain ⟨c, chars, hchars⟩ := List.exists_cons_of_ne_nil (Nat.toDigits_ne_nil (b := 10) (n := n))
    refine ⟨c, chars, hchars, Or.inr ?_⟩
    exact Nat.isDigit_of_mem_toDigits (by decide) (by decide) (hchars ▸ List.mem_cons_self)
  | negative n => exact ⟨_, _, rfl, Or.inl rfl⟩
  | float minus size => exact hnumber.elim
  | outOfRange => exact hnumber.elim

/-- The text of a value begins with none of the characters that stand between values. -/
theorem Value.IsWhole.compactChars_eq_cons (hvalue : value.IsWhole) :
    ∃ c chars, value.compactChars = c :: chars ∧ isSpace c = false ∧ c ≠ ']' := by
  cases value with
  | null => exact ⟨_, _, rfl, rfl, by decide⟩
  | bool value => cases value <;> exact ⟨_, _, rfl, rfl, by decide⟩
  | text value => exact ⟨_, _, rfl, rfl, by decide⟩
  | array items fault => exact ⟨_, _, by rw [Value.compactChars]; rfl, rfl, by decide⟩
  | object members fault => exact ⟨_, _, by rw [Value.compactChars]; rfl, rfl, by decide⟩
  | unpaired => exact hvalue.elim
  | broken read skipped => exact hvalue.elim
  | number value =>
    obtain ⟨c, chars, hchars, hc⟩ := Number.IsInteger.chars_eq_cons hvalue
    refine ⟨c, chars, by rw [Value.compactChars]; exact hchars, ?_⟩
    rcases hc with rfl | hc
    · decide
    · refine ⟨isSpace_of_isDigit hc, ?_⟩
      rintro rfl
      exact absurd hc (by decide)

/-- A digit at the front begins a number. -/
theorem readValue_digit (hc : c.isDigit = true) :
    readValue (fuel + 1) (c :: tail) = readNumber false (c :: tail) := by
  rw [readValue, skipSpace_cons (isSpace_of_isDigit hc)]
  split
  case h_9 hchars =>
    obtain ⟨rfl, rfl⟩ := List.cons.inj hchars
    exact if_pos hc
  case h_1 hchars => exact absurd hchars (List.cons_ne_nil c tail)
  all_goals
    rename_i hchars
    obtain ⟨rfl, -⟩ := List.cons.inj hchars
    exact absurd hc (by decide)

theorem readValue_minus : readValue (fuel + 1) ('-' :: tail) = readNumber true tail := by
  rw [readValue, skipSpace_cons rfl]
  rfl

theorem readValue_number {number : Number} (hnumber : number.IsInteger) (htail : EndsNumber tail) :
    readValue (fuel + 1) (number.chars ++ tail) = (.number number, tail) := by
  cases number with
  | natural n =>
    obtain ⟨d, digits, hdigits⟩ :=
      List.exists_cons_of_ne_nil (Nat.toDigits_ne_nil (b := 10) (n := n))
    have hd : d.isDigit = true :=
      Nat.isDigit_of_mem_toDigits (by decide) (by decide) (hdigits ▸ List.mem_cons_self)
    have hread := readNumber_toDigits false n htail
    rw [hdigits, ofLiteral_natural hnumber] at hread
    rw [Number.chars, hdigits, List.cons_append, readValue_digit hd]
    exact hread
  | negative n =>
    have hread := readNumber_toDigits true n htail
    rw [ofLiteral_negative hnumber.1 hnumber.2] at hread
    rw [Number.chars, List.cons_append, readValue_minus]
    exact hread
  | float minus size => exact hnumber.elim
  | outOfRange => exact hnumber.elim

theorem readText_stringChars (text : String) (tail : List Char) :
    ∃ chars, stringChars text ++ tail = '"' :: chars ∧
      readText (.ok []) chars = (.text text, tail) := by
  refine ⟨text.toList.flatMap escapedChar ++ '"' :: tail, ?_, ?_⟩
  · unfold stringChars
    rw [List.cons_append, List.cons_append, List.append_assoc, List.singleton_append]
  · have hread := readText_flatMap_escapedChar [] text.toList tail
    rw [List.reverse_nil, List.nil_append, String.ofList_toList] at hread
    exact hread

theorem readValue_stringChars (text : String) :
    readValue (fuel + 1) (stringChars text ++ tail) = (.text text, tail) := by
  obtain ⟨chars, hchars, hread⟩ := readText_stringChars text tail
  rw [hchars, readValue, skipSpace_cons rfl]
  exact hread

/-- An opening bracket announces an item unless the closing one follows. -/
theorem readValue_bracket (hspace : isSpace c = false) (hclose : c ≠ ']') :
    readValue (fuel + 1) ('[' :: c :: tail) =
      (.array (readItems fuel (c :: tail)).1 (readItems fuel (c :: tail)).2.1,
        (readItems fuel (c :: tail)).2.2) := by
  rw [readValue, skipSpace_cons rfl]
  simp only [skipSpace_cons hspace]
  split
  next hnil => cases hnil
  next hcons => exact absurd (List.cons.inj hcons).1 hclose
  next => rfl

/-- An opening brace announces a member if a key follows. -/
theorem readValue_brace :
    readValue (fuel + 1) ('\x7b' :: '"' :: tail) =
      (.object (readMembers fuel ('"' :: tail)).1 (readMembers fuel ('"' :: tail)).2.1,
        (readMembers fuel ('"' :: tail)).2.2) := by
  rw [readValue, skipSpace_cons rfl]
  simp only [skipSpace_cons (c := '"') rfl]
  rfl

theorem readItems_last {item : Value} {chars : List Char} (hitem : item.skipFault? = none)
    (hread : readValue fuel chars = (item, ']' :: tail)) :
    readItems (fuel + 1) chars = ([item], none, tail) := by
  rw [readItems, hread]
  simp only [hitem, skipSpace_cons (c := ']') rfl]

theorem readItems_comma {item : Value} {chars : List Char} (hitem : item.skipFault? = none)
    (hread : readValue fuel chars = (item, ',' :: tail)) :
    readItems (fuel + 1) chars =
      (item :: (readItems fuel tail).1, (readItems fuel tail).2) := by
  rw [readItems, hread]
  simp only [hitem, skipSpace_cons (c := ',') rfl]

theorem readMembers_last {name : String} {chars : List Char} (hvalue : value.skipFault? = none)
    (hread : readValue fuel chars = (value, '\x7d' :: tail)) :
    readMembers (fuel + 1) (stringChars name ++ ':' :: chars) =
      ([(.text name, value)], none, tail) := by
  obtain ⟨keyChars, hkey, hname⟩ := readText_stringChars name (':' :: chars)
  rw [hkey, readMembers]
  simp only [skipSpace_cons (c := '"') rfl, hname, Value.asKey, Key.skipFault?,
    skipSpace_cons (c := ':') rfl, hread, hvalue, skipSpace_cons (c := '\x7d') rfl]

theorem readMembers_comma {name : String} {chars : List Char} (hvalue : value.skipFault? = none)
    (hread : readValue fuel chars = (value, ',' :: tail)) :
    readMembers (fuel + 1) (stringChars name ++ ':' :: chars) =
      ((.text name, value) :: (readMembers fuel tail).1, (readMembers fuel tail).2) := by
  obtain ⟨keyChars, hkey, hname⟩ := readText_stringChars name (':' :: chars)
  rw [hkey, readMembers]
  simp only [skipSpace_cons (c := '"') rfl, hname, Value.asKey, Key.skipFault?,
    skipSpace_cons (c := ':') rfl, hread, hvalue, skipSpace_cons (c := ',') rfl]

theorem endsNumber_cons (hdigit : c.isDigit = false) (hpoint : c ≠ '.') (he : c ≠ 'e')
    (hE : c ≠ 'E') : EndsNumber (c :: tail) := by
  intro d hd
  cases hd
  exact ⟨hdigit, hpoint, he, hE⟩

theorem readValue_null :
    readValue (fuel + 1) (Value.null.compactChars ++ tail) = (.null, tail) := by
  rw [Value.compactChars]
  rfl

theorem readValue_bool (flag : Bool) :
    readValue (fuel + 1) ((Value.bool flag).compactChars ++ tail) = (.bool flag, tail) := by
  rw [Value.compactChars]
  cases flag <;> rfl

/-- The text of items begins with that of the first one. -/
theorem itemsChars_eq_cons {item : Value} (hitem : item.IsWhole) (rest : List Value) :
    ∃ c chars, itemsChars (item :: rest) = c :: chars ∧ isSpace c = false ∧ c ≠ ']' := by
  obtain ⟨c, chars, hchars, hspace, hclose⟩ := hitem.compactChars_eq_cons
  cases rest with
  | nil => exact ⟨c, chars, by rw [itemsChars, hchars], hspace, hclose⟩
  | cons next rest => exact ⟨c, _, by rw [itemsChars, hchars]; rfl, hspace, hclose⟩

/-- The text of members begins with the quote of the first key. -/
theorem membersChars_eq_cons (name : String) (value : Value) (rest : List (Key × Value)) :
    ∃ chars, membersChars ((.text name, value) :: rest) = '"' :: chars := by
  cases rest with
  | nil => exact ⟨_, by rw [membersChars]; rfl⟩
  | cons next rest => exact ⟨_, by rw [membersChars]; rfl⟩

theorem readValue_array {item : Value} {rest : List Value} (hitem : item.IsWhole)
    (hread : readItems fuel (itemsChars (item :: rest) ++ ']' :: tail) =
      (item :: rest, none, tail)) :
    readValue (fuel + 1) ((Value.array (item :: rest) none).compactChars ++ tail) =
      (.array (item :: rest) none, tail) := by
  obtain ⟨c, chars, hchars, hspace, hclose⟩ := itemsChars_eq_cons hitem rest
  rw [Value.compactChars, List.cons_append, List.cons_append, List.append_assoc,
    List.singleton_append]
  rw [hchars, List.cons_append] at hread ⊢
  rw [readValue_bracket hspace hclose, hread]

theorem readValue_object {name : String} {rest : List (Key × Value)}
    (hread : readMembers fuel (membersChars ((.text name, value) :: rest) ++ '\x7d' :: tail) =
      ((.text name, value) :: rest, none, tail)) :
    readValue (fuel + 1) ((Value.object ((.text name, value) :: rest) none).compactChars ++ tail) =
      (.object ((.text name, value) :: rest) none, tail) := by
  obtain ⟨chars, hchars⟩ := membersChars_eq_cons name value rest
  rw [Value.compactChars, List.cons_append, List.cons_append, List.append_assoc,
    List.singleton_append]
  rw [hchars, List.cons_append] at hread ⊢
  rw [readValue_brace, hread]

mutual

theorem readValue_compactChars (value : Value) (hvalue : value.IsWhole) (fuel : Nat)
    (hfuel : value.compactChars.length ≤ fuel) (tail : List Char) (htail : EndsNumber tail) :
    readValue fuel (value.compactChars ++ tail) = (value, tail) := by
  -- The text of a value is not empty, so there is fuel to begin with.
  obtain ⟨c, chars, hchars, -, -⟩ := hvalue.compactChars_eq_cons
  obtain ⟨fuel, rfl⟩ : ∃ rest, fuel = rest + 1 :=
    Nat.exists_eq_succ_of_ne_zero (by rw [hchars] at hfuel; rintro rfl; cases hfuel)
  match value with
  | .null => exact readValue_null
  | .bool flag => exact readValue_bool flag
  | .number number =>
    rw [Value.compactChars]
    exact readValue_number hvalue htail
  | .text text =>
    rw [Value.compactChars]
    exact readValue_stringChars text
  | .array [] fault =>
    obtain ⟨rfl, -⟩ := hvalue
    rw [Value.compactChars, itemsChars]
    rfl
  | .array (item :: rest) fault =>
    obtain ⟨rfl, hitem, hrest⟩ := hvalue
    refine readValue_array hitem (readItems_itemsChars item rest hitem hrest fuel ?_ tail)
    rw [Value.compactChars] at hfuel
    simp only [List.cons_append, List.length_cons, List.length_append] at hfuel
    omega
  | .object [] fault =>
    obtain ⟨rfl, -⟩ := hvalue
    rw [Value.compactChars, membersChars]
    rfl
  | .object ((key, first) :: rest) fault =>
    obtain ⟨rfl, ⟨name, rfl⟩, hfirst, hrest⟩ := hvalue
    refine readValue_object (readMembers_membersChars name first rest hfirst hrest fuel ?_ tail)
    rw [Value.compactChars] at hfuel
    simp only [List.cons_append, List.length_cons, List.length_append] at hfuel
    omega
  | .unpaired => exact hvalue.elim
  | .broken .. => exact hvalue.elim
termination_by fuel

theorem readItems_itemsChars (item : Value) (rest : List Value) (hitem : item.IsWhole)
    (hrest : ItemsWhole rest) (fuel : Nat) (hfuel : (itemsChars (item :: rest)).length < fuel)
    (tail : List Char) :
    readItems fuel (itemsChars (item :: rest) ++ ']' :: tail) = (item :: rest, none, tail) := by
  obtain ⟨fuel, rfl⟩ : ∃ rest, fuel = rest + 1 :=
    Nat.exists_eq_succ_of_ne_zero (Nat.ne_zero_of_lt hfuel)
  match rest with
  | [] =>
    rw [itemsChars] at hfuel ⊢
    have hread := readValue_compactChars item hitem fuel (Nat.le_of_lt_succ hfuel) (']' :: tail)
      (endsNumber_cons rfl (by decide) (by decide) (by decide))
    exact readItems_last hitem.skipFault?_eq hread
  | next :: rest =>
    rw [itemsChars, List.append_assoc, List.cons_append]
    rw [itemsChars, List.length_append, List.length_cons] at hfuel
    have hread := readValue_compactChars item hitem fuel (by omega)
      (',' :: (itemsChars (next :: rest) ++ ']' :: tail))
      (endsNumber_cons rfl (by decide) (by decide) (by decide))
    rw [readItems_comma hitem.skipFault?_eq hread,
      readItems_itemsChars next rest hrest.1 hrest.2 fuel (by omega) tail]
termination_by fuel

theorem readMembers_membersChars (name : String) (value : Value) (rest : List (Key × Value))
    (hvalue : value.IsWhole) (hrest : MembersWhole rest) (fuel : Nat)
    (hfuel : (membersChars ((.text name, value) :: rest)).length < fuel) (tail : List Char) :
    readMembers fuel (membersChars ((.text name, value) :: rest) ++ '\x7d' :: tail) =
      ((.text name, value) :: rest, none, tail) := by
  obtain ⟨fuel, rfl⟩ : ∃ rest, fuel = rest + 1 :=
    Nat.exists_eq_succ_of_ne_zero (Nat.ne_zero_of_lt hfuel)
  match rest with
  | [] =>
    rw [membersChars, List.length_append, List.length_cons] at hfuel
    have hread := readValue_compactChars value hvalue fuel (by omega) ('\x7d' :: tail)
      (endsNumber_cons rfl (by decide) (by decide) (by decide))
    rw [membersChars, List.append_assoc, List.cons_append]
    exact readMembers_last hvalue.skipFault?_eq hread
  | (key, next) :: rest =>
    obtain ⟨⟨nextName, rfl⟩, hnext, hmore⟩ := hrest
    rw [membersChars, List.length_append, List.length_cons, List.length_append,
      List.length_cons] at hfuel
    have hread := readValue_compactChars value hvalue fuel (by omega)
      -- A value that is a number ends at the comma, as it ends at the brace.
      (',' :: (membersChars ((.text nextName, next) :: rest) ++ '\x7d' :: tail))
      (endsNumber_cons rfl (by decide) (by decide) (by decide))
    have hrest := readMembers_membersChars nextName next rest hnext hmore fuel (by omega) tail
    rw [membersChars, List.append_assoc, List.cons_append, List.append_assoc, List.cons_append]
    rw [Key.chars, readMembers_comma hvalue.skipFault?_eq hread, hrest]
termination_by fuel

end

/-- The text of a value in full stands for the value and for nothing more. -/
theorem ofText_compact {value : Value} (hvalue : value.IsWhole) :
    Document.ofText value.compact = ⟨value, false⟩ := by
  have hread := readValue_compactChars value hvalue (2 * value.compactChars.length + 2)
    (by omega) [] (fun c hc => by cases hc)
  rw [List.append_nil] at hread
  unfold Document.ofText Value.compact
  rw [String.toList_ofList, hread]
  rfl

end LintRepair.Json
