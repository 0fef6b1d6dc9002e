import LintRepair.Text.Bytes

/-!
# Texts and their bytes

Offsets count bytes, while `Text.splitAt?` and `Text.replaceSpan?` cut lists of characters.  This
file relates the two views: `bytes` is the UTF-8 form of a text, a cut between characters is a cut
between bytes (`encode_append`, `length_encode`), and an offset is a boundary exactly when some
first characters take that many bytes (`isBoundary_iff`).  Two cuts of one text are ordered like
their offsets, which is what `exists_between` says.
-/

namespace LintRepair.Text

/-- The UTF-8 form of a sequence of characters. -/
def encode (chars : List Char) : List UInt8 :=
  chars.flatMap String.utf8EncodeChar

@[simp] theorem encode_append (before after : List Char) :
    encode (before ++ after) = encode before ++ encode after :=
  List.flatMap_append

@[simp] theorem length_encode (chars : List Char) : (encode chars).length = byteCount chars := by
  induction chars with
  | nil => rfl
  | cons c chars ih =>
      rw [byteCount_cons, ← ih]
      simp [encode]

theorem bytes_ofList (chars : List Char) : bytes (String.ofList chars) = encode chars := by
  simp [bytes, encode, List.utf8Encode]

theorem bytes_eq_encode (text : String) : bytes text = encode text.toList := by
  rw [← bytes_ofList, String.ofList_toList]

@[simp] theorem length_bytes (text : String) : (bytes text).length = text.utf8ByteSize := rfl

@[simp] theorem byteCount_toList (text : String) : byteCount text.toList = text.utf8ByteSize := by
  rw [← length_encode, ← bytes_eq_encode, length_bytes]

/-! ## Cuts -/

theorem byteCount_eq_zero_iff {chars : List Char} : byteCount chars = 0 ↔ chars = [] := by
  cases chars with
  | nil => simp
  | cons c chars =>
      have hpos := c.utf8Size_pos
      rw [byteCount_cons]
      simp only [reduceCtorEq, iff_false]
      omega

/-- A boundary is where some first characters end. -/
theorem isBoundary_iff {chars : List Char} {offset : Nat} :
    IsBoundary chars offset ↔
      ∃ before after, chars = before ++ after ∧ byteCount before = offset := by
  unfold IsBoundary
  rw [Option.isSome_iff_exists]
  constructor
  · rintro ⟨⟨before, after⟩, hsplit⟩
    exact ⟨before, after, splitAt?_eq_some_iff.mp hsplit⟩
  · rintro ⟨before, after, h⟩
    exact ⟨(before, after), splitAt?_eq_some_iff.mpr h⟩

/-- Of two cuts of one text, the characters between them belong to the later cut. -/
theorem exists_between {before after first second : List Char}
    (hsame : before ++ after = first ++ second) (hle : byteCount before ≤ byteCount first) :
    ∃ middle, first = before ++ middle ∧ after = middle ++ second := by
  rcases List.append_eq_append_iff.mp hsame with h | ⟨extra, hbefore, hsecond⟩
  · exact h
  · -- The first cut would lie behind the second one, by characters that take no bytes.
    have hextra : byteCount extra = 0 := by
      rw [hbefore, byteCount_append] at hle
      omega
    rw [byteCount_eq_zero_iff] at hextra
    subst hextra
    exact ⟨[], by simpa using hbefore.symm, by simpa using hsecond.symm⟩

/-- The bytes between two cuts are those of the characters between them. -/
theorem extract_encode (before middle after : List Char) :
    (encode (before ++ (middle ++ after))).extract (byteCount before)
      (byteCount before + byteCount middle) = encode middle := by
  have hlength : byteCount before + byteCount middle - byteCount before =
      (encode middle).length := by
    rw [length_encode]
    omega
  rw [List.extract_eq_take_drop, hlength, encode_append, ← length_encode, List.drop_left,
    encode_append, List.take_left]

end LintRepair.Text
