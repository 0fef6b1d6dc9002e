/-!
# Byte offsets in a text

Spans are given in bytes of the UTF-8 form, while a text is a sequence of characters. This file
measures sequences of characters in bytes and cuts them at byte offsets: `splitAt?` answers exactly
when the offset lies on a character boundary, so a cut text is again a text and never half a
character. `replaceSpan?` exchanges the characters of a byte span for others.
-/

namespace LintRepair.Text

/-- The number of bytes that characters take in UTF-8. -/
def byteCount : List Char → Nat
  | [] => 0
  | c :: chars => c.utf8Size + byteCount chars

/-- Cuts `chars` before the byte at `offset`. There is no answer when the offset lies inside a
character or past the end. -/
def splitAt? : Nat → List Char → Option (List Char × List Char)
  | 0, chars => some ([], chars)
  | _ + 1, [] => none
  | offset + 1, c :: chars =>
      if c.utf8Size ≤ offset + 1 then
        (splitAt? (offset + 1 - c.utf8Size) chars).map fun (before, after) => (c :: before, after)
      else none

/-- Whether the byte offset lies between two characters, or at either end. -/
def IsBoundary (chars : List Char) (offset : Nat) : Prop :=
  (splitAt? offset chars).isSome

instance (chars : List Char) (offset : Nat) : Decidable (IsBoundary chars offset) :=
  inferInstanceAs (Decidable (_ = true))

/-- The text with the bytes from `start` up to `stop` exchanged for `text`, provided that both ends
are character boundaries of `chars`. -/
def replaceSpan? (chars : List Char) (start stop : Nat) (text : List Char) :
    Option (List Char) := do
  let (before, rest) ← splitAt? start chars
  let (_, after) ← splitAt? (stop - start) rest
  return before ++ text ++ after

/-- The bytes of a text. -/
def bytes (text : String) : List UInt8 :=
  text.toByteArray.data.toList

@[simp] theorem byteCount_nil : byteCount [] = 0 := rfl

@[simp] theorem byteCount_cons (c : Char) (chars : List Char) :
    byteCount (c :: chars) = c.utf8Size + byteCount chars := rfl

@[simp] theorem byteCount_append (before after : List Char) :
    byteCount (before ++ after) = byteCount before + byteCount after := by
  induction before with
  | nil => simp
  | cons c before ih =>
    rw [List.cons_append, byteCount_cons, byteCount_cons, ih, Nat.add_assoc]

/-- Both parts of a cut text are its own, and the first takes `offset` bytes. -/
theorem splitAt?_eq_some_iff {offset : Nat} {chars before after : List Char} :
    splitAt? offset chars = some (before, after) ↔
      chars = before ++ after ∧ byteCount before = offset := by
  fun_induction splitAt? offset chars generalizing before with
  | case1 chars =>
    constructor
    · rintro ⟨⟩
      exact ⟨rfl, rfl⟩
    · -- A part of no bytes holds no character, since each takes at least one.
      rintro ⟨rfl, hcount⟩
      cases before with
      | nil => rfl
      | cons c before =>
        have := c.utf8Size_pos
        rw [byteCount_cons] at hcount
        omega
  | case2 offset =>
    constructor
    · intro h
      cases h
    · rintro ⟨hchars, hcount⟩
      obtain ⟨rfl, rfl⟩ := List.append_eq_nil_iff.mp hchars.symm
      simp at hcount
  | case3 offset c chars hfits ih =>
    -- The first character lies before the offset, so it opens the first part.
    simp only [Option.map_eq_some_iff, Prod.mk.injEq, Prod.exists]
    constructor
    · rintro ⟨first, second, hsplit, rfl, rfl⟩
      obtain ⟨rfl, hcount⟩ := ih.mp hsplit
      exact ⟨rfl, by rw [byteCount_cons]; omega⟩
    · rintro ⟨hchars, hcount⟩
      cases before with
      | nil => simp at hcount
      | cons d before =>
        obtain ⟨rfl, rfl⟩ := List.cons.inj hchars
        rw [byteCount_cons] at hcount
        exact ⟨before, after, ih.mpr ⟨rfl, by omega⟩, rfl, rfl⟩
  | case4 offset c chars hfits =>
    constructor
    · intro h
      cases h
    · rintro ⟨hchars, hcount⟩
      cases before with
      -- The offset lies inside the first character, which no first part can end in.
      | nil => simp at hcount
      | cons d before =>
        obtain ⟨rfl, rfl⟩ := List.cons.inj hchars
        rw [byteCount_cons] at hcount
        omega

/-- Replacing a span between two boundaries keeps what stands before and after it. -/
theorem replaceSpan?_append (before removed after text : List Char) :
    replaceSpan? (before ++ removed ++ after) (byteCount before)
      (byteCount before + byteCount removed) text = some (before ++ text ++ after) := by
  have hfirst : splitAt? (byteCount before) (before ++ removed ++ after) =
      some (before, removed ++ after) :=
    splitAt?_eq_some_iff.mpr ⟨List.append_assoc .., rfl⟩
  have hsecond : splitAt? (byteCount before + byteCount removed - byteCount before)
      (removed ++ after) = some (removed, after) :=
    splitAt?_eq_some_iff.mpr ⟨rfl, by omega⟩
  unfold replaceSpan?
  rw [hfirst]
  simp only [Option.bind_eq_bind, Option.bind_some]
  rw [hsecond]
  rfl

end LintRepair.Text
