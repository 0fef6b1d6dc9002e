import Mathlib.Data.List.Basic
import Mathlib.Tactic.Common
import LintRepair.Proofs.Text.Encoding
import LintRepair.Text.Position

/-!
# First bytes

The first byte of a character is the only one of its bytes that `beginsCharacter` accepts, and it is
a line feed only if the character is one (`exists_utf8EncodeChar`).  So the bytes before an offset
tell which characters begin before it: their number is that of the first bytes
(`countP_take_encode`), and there are as many line feeds among the bytes as among the characters
(`count_take_encode`).  A character that an offset cuts in two counts as one that begins before it.
-/

namespace LintRepair.Text

variable {chars before rest : List Char} {c : Char} {offset : Nat}

/-- The byte of a line feed. -/
def lineFeed : UInt8 := 0x0A

/-! ## First bytes -/

theorem beginsCharacter_ofNat :
    ∀ value < 256, beginsCharacter (UInt8.ofNat value) = decide (value < 128 ∨ 192 ≤ value) := by
  decide +kernel

theorem ofNat_eq_lineFeed_iff {value : Nat} (hvalue : value < 256) :
    UInt8.ofNat value = lineFeed ↔ value = 10 := by
  rw [← UInt8.toNat_inj, UInt8.toNat_ofNat', Nat.mod_eq_of_lt hvalue]
  rfl

/-- A character has one first byte, and this is a line feed for no other character. -/
theorem exists_utf8EncodeChar (c : Char) :
    ∃ first rest, String.utf8EncodeChar c = first :: rest ∧ beginsCharacter first = true ∧
      (∀ byte ∈ rest, beginsCharacter byte = false) ∧ (first = lineFeed ↔ c = '\n') := by
  have hfeed : c = '\n' ↔ c.val.toNat = 10 := by
    rw [Char.ext_iff, ← UInt32.toNat_inj]
    rfl
  have hleads : ∀ value, 192 ≤ value → value < 256 →
      beginsCharacter (UInt8.ofNat value) = true ∧ UInt8.ofNat value ≠ lineFeed := by
    intro value hlower hupper
    rw [beginsCharacter_ofNat value hupper, decide_eq_true_iff, Ne, ofNat_eq_lineFeed_iff hupper]
    omega
  have hfollows : ∀ value, beginsCharacter (UInt8.ofNat (value % 64 + 128)) = false := by
    intro value
    rw [beginsCharacter_ofNat _ (by omega), decide_eq_false_iff_not]
    omega
  unfold String.utf8EncodeChar
  dsimp only
  -- One case for each number of bytes.
  split
  · refine ⟨_, [], rfl, ?_, List.forall_mem_nil _, ?_⟩
    · rw [beginsCharacter_ofNat _ (by omega), decide_eq_true_iff]
      omega
    · rw [ofNat_eq_lineFeed_iff (by omega), hfeed]
  split
  · obtain ⟨hfirst, hother⟩ := hleads (c.val.toNat / 64 % 32 + 192) (by omega) (by omega)
    refine ⟨_, _, rfl, hfirst, ?_, iff_of_false hother fun hc => absurd (hfeed.mp hc) (by omega)⟩
    simp only [List.forall_mem_cons]
    exact ⟨hfollows _, List.forall_mem_nil _⟩
  split
  · obtain ⟨hfirst, hother⟩ := hleads (c.val.toNat / 4096 % 16 + 224) (by omega) (by omega)
    refine ⟨_, _, rfl, hfirst, ?_, iff_of_false hother fun hc => absurd (hfeed.mp hc) (by omega)⟩
    simp only [List.forall_mem_cons]
    exact ⟨hfollows _, hfollows _, List.forall_mem_nil _⟩
  · obtain ⟨hfirst, hother⟩ := hleads (c.val.toNat / 262144 % 8 + 240) (by omega) (by omega)
    refine ⟨_, _, rfl, hfirst, ?_, iff_of_false hother fun hc => absurd (hfeed.mp hc) (by omega)⟩
    simp only [List.forall_mem_cons]
    exact ⟨hfollows _, hfollows _, hfollows _, List.forall_mem_nil _⟩

theorem countP_take_utf8EncodeChar (c : Char) (offset : Nat) :
    ((String.utf8EncodeChar c).take (offset + 1)).countP beginsCharacter = 1 := by
  obtain ⟨first, rest, hencode, hfirst, hrest, -⟩ := exists_utf8EncodeChar c
  rw [hencode, List.take_succ_cons, List.countP_cons_of_pos hfirst, Nat.add_eq_right,
    List.countP_eq_zero]
  intro byte hbyte
  rw [hrest byte (List.mem_of_mem_take hbyte)]
  exact Bool.false_ne_true

theorem count_take_utf8EncodeChar (c : Char) (offset : Nat) :
    ((String.utf8EncodeChar c).take (offset + 1)).count lineFeed = if c = '\n' then 1 else 0 := by
  obtain ⟨first, rest, hencode, -, hrest, hfeed⟩ := exists_utf8EncodeChar c
  have hnone : (rest.take offset).count lineFeed = 0 := by
    rw [List.count_eq_zero]
    intro hmem
    have hbegins : beginsCharacter lineFeed = true := by decide
    exact absurd (hrest _ (List.mem_of_mem_take hmem)) (by simp [hbegins])
  rw [hencode, List.take_succ_cons, List.count_cons, hnone, Nat.zero_add]
  by_cases hc : c = '\n'
  · rw [if_pos hc, if_pos (beq_iff_eq.mpr (hfeed.mpr hc))]
  · rw [if_neg hc, if_neg fun hfirst => hc (hfeed.mp (beq_iff_eq.mp hfirst))]

theorem take_encode_cons (c : Char) (chars : List Char) (offset : Nat) :
    (encode (c :: chars)).take (offset + 1) =
      (String.utf8EncodeChar c).take (offset + 1) ++
        (encode chars).take (offset + 1 - c.utf8Size) := by
  unfold encode
  rw [List.flatMap_cons, List.take_append, String.length_utf8EncodeChar]

/-! ## Characters before an offset -/

/-- The characters that begin before the byte at `offset`. -/
def beginningBefore : Nat → List Char → List Char
  | 0, _ => []
  | _ + 1, [] => []
  | offset + 1, c :: chars => c :: beginningBefore (offset + 1 - c.utf8Size) chars

theorem countP_take_encode (offset : Nat) (chars : List Char) :
    ((encode chars).take offset).countP beginsCharacter =
      (beginningBefore offset chars).length := by
  fun_induction beginningBefore offset chars with
  | case1 => rfl
  | case2 => rfl
  | case3 offset c chars ih =>
      rw [take_encode_cons, List.countP_append, countP_take_utf8EncodeChar, ih, List.length_cons]
      omega

theorem count_take_encode (offset : Nat) (chars : List Char) :
    ((encode chars).take offset).count lineFeed = (beginningBefore offset chars).count '\n' := by
  fun_induction beginningBefore offset chars with
  | case1 => rfl
  | case2 => rfl
  | case3 offset c chars ih =>
      rw [take_encode_cons, List.count_append, count_take_utf8EncodeChar, ih, List.count_cons]
      simp only [beq_iff_eq]
      omega

theorem beginningBefore_zero (chars : List Char) : beginningBefore 0 chars = [] := by
  cases chars <;> rfl

theorem beginningBefore_nil (offset : Nat) : beginningBefore offset [] = [] := by
  cases offset <;> rfl

theorem beginningBefore_prefix (offset : Nat) (chars : List Char) :
    beginningBefore offset chars <+: chars := by
  fun_induction beginningBefore offset chars with
  | case1 chars => exact List.nil_prefix
  | case2 => exact List.nil_prefix
  | case3 offset c chars ih => exact (List.prefix_cons_inj c).mpr ih

theorem beginningBefore_mono {earlier later : Nat} (hle : earlier ≤ later) (chars : List Char) :
    beginningBefore earlier chars <+: beginningBefore later chars := by
  fun_induction beginningBefore earlier chars generalizing later with
  | case1 chars => exact List.nil_prefix
  | case2 => exact List.nil_prefix
  | case3 earlier c chars ih =>
      obtain ⟨later, rfl⟩ := Nat.exists_eq_add_one.mpr (Nat.lt_of_lt_of_le (Nat.succ_pos _) hle)
      exact (List.prefix_cons_inj c).mpr (ih (by omega))

/-- The last character that begins before an offset does not end before it. -/
theorem le_byteCount_beginningBefore (hle : offset ≤ byteCount chars) :
    offset ≤ byteCount (beginningBefore offset chars) := by
  fun_induction beginningBefore offset chars with
  | case1 => exact Nat.zero_le _
  | case2 offset => exact hle
  | case3 offset c chars ih =>
      rw [byteCount_cons] at hle ⊢
      have hrest := ih (by omega)
      omega

/-- Characters that are passed are counted whole: up to the end of the next one, the offset of a
boundary may grow. -/
theorem beginningBefore_append_cons (hlower : byteCount before < offset)
    (hupper : offset ≤ byteCount before + c.utf8Size) :
    beginningBefore offset (before ++ c :: rest) = before ++ [c] := by
  induction before generalizing offset with
  | nil =>
      obtain ⟨offset, rfl⟩ := Nat.exists_eq_add_one.mpr (Nat.lt_of_le_of_lt (Nat.zero_le _) hlower)
      have hrest : offset + 1 - c.utf8Size = 0 := by
        rw [byteCount_nil] at hupper
        omega
      rw [List.nil_append, List.nil_append, beginningBefore, hrest, beginningBefore_zero]
  | cons d before ih =>
      rw [byteCount_cons] at hlower hupper
      obtain ⟨offset, rfl⟩ := Nat.exists_eq_add_one.mpr (Nat.lt_of_le_of_lt (Nat.zero_le _) hlower)
      rw [List.cons_append, beginningBefore, ih (by omega) (by omega), List.cons_append]

/-- At a boundary, exactly the characters in front of it have begun. -/
theorem beginningBefore_byteCount (before rest : List Char) :
    beginningBefore (byteCount before) (before ++ rest) = before := by
  rcases List.eq_nil_or_concat before with rfl | ⟨front, last, rfl⟩
  · exact beginningBefore_zero _
  · have hpos := last.utf8Size_pos
    rw [List.concat_eq_append, byteCount_append, byteCount_cons, byteCount_nil, List.append_assoc]
    exact beginningBefore_append_cons (by omega) (by omega)

end LintRepair.Text
