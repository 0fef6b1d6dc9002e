import Mathlib.Data.List.Basic
import Mathlib.Tactic.Common
import LintRepair.Proofs.Text.LineTable

/-!
# Positions count what is passed

A position is found by halving a table of line starts and by counting first bytes behind one of
them.  The lookup always succeeds, and it ends where a reader ends who passes the characters one by
one (`position?_eq_after`): the start that is found is that of the line with the offset
(`startsLine_byteCount`), and what begins behind it is counted (`exists_beginningBefore_eq`).

Every character that is passed moves the position forward (`precedes_advance`).  Hence positions are
ordered like offsets, and different boundaries have different positions.
-/

namespace LintRepair.Text

variable {chars before rest front line : List Char} {stop : Nat} {source : String}

/-! ## Passing characters -/

namespace Position

variable {place other third : Position}

/-- The position behind one more character. -/
def advance (place : Position) (c : Char) : Position :=
  if c = '\n' then ⟨place.line + 1, 0⟩ else ⟨place.line, place.character + 1⟩

/-- The position behind the first characters of a text. -/
def after (passed : List Char) : Position :=
  passed.foldl advance ⟨0, 0⟩

/-- A position is on an earlier line than another one, or earlier on the same line. -/
def Precedes (place other : Position) : Prop :=
  place.line < other.line ∨ place.line = other.line ∧ place.character < other.character

theorem Precedes.trans (h : place.Precedes other) (h' : other.Precedes third) :
    place.Precedes third := by
  unfold Precedes at h h' ⊢
  omega

theorem not_precedes_self (place : Position) : ¬ place.Precedes place := by
  unfold Precedes
  omega

theorem precedes_advance (place : Position) (c : Char) : place.Precedes (place.advance c) := by
  unfold Precedes advance
  split
  · exact Or.inl (Nat.lt_succ_self _)
  · exact Or.inr ⟨rfl, Nat.lt_succ_self _⟩

theorem precedes_foldl_advance (hne : chars ≠ []) (place : Position) :
    place.Precedes (chars.foldl advance place) := by
  induction chars generalizing place with
  | nil => exact absurd rfl hne
  | cons c chars ih =>
      have hfirst := place.precedes_advance c
      cases chars with
      | nil => exact hfirst
      | cons d chars => exact hfirst.trans (ih (List.cons_ne_nil _ _) (place.advance c))

theorem foldl_advance_of_notMem (hfeed : '\n' ∉ chars) (place : Position) :
    chars.foldl advance place = ⟨place.line, place.character + chars.length⟩ := by
  induction chars generalizing place with
  | nil => rfl
  | cons c chars ih =>
      rw [List.mem_cons, not_or] at hfeed
      have hadvance : place.advance c = ⟨place.line, place.character + 1⟩ :=
        if_neg (Ne.symm hfeed.1)
      rw [List.foldl_cons, ih hfeed.2, hadvance, List.length_cons, Nat.add_assoc, Nat.add_comm 1]

theorem line_advance (place : Position) (c : Char) :
    (place.advance c).line = place.line + if c = '\n' then 1 else 0 := by
  unfold advance
  split
  · rfl
  · rfl

theorem line_foldl_advance (chars : List Char) (place : Position) :
    (chars.foldl advance place).line = place.line + chars.count '\n' := by
  induction chars generalizing place with
  | nil => rfl
  | cons c chars ih =>
      rw [List.foldl_cons, ih, line_advance, List.count_cons]
      simp only [beq_iff_eq]
      omega

/-- Behind a line feed the characters are counted anew. -/
theorem after_append (hline : '\n' ∉ line)
    (hfront : front = [] ∨ ∃ earlier, front = earlier ++ ['\n']) :
    after (front ++ line) = ⟨front.count '\n', line.length⟩ := by
  have hstart : after front = ⟨front.count '\n', 0⟩ := by
    rcases hfront with rfl | ⟨earlier, rfl⟩
    · rfl
    · unfold after
      rw [List.foldl_append, List.foldl_cons, List.foldl_nil, advance, if_pos rfl,
        line_foldl_advance, List.count_append, List.count_singleton_self, Nat.zero_add]
  unfold after at hstart ⊢
  rw [List.foldl_append, hstart, foldl_advance_of_notMem hline, Nat.zero_add]

end Position

/-! ## The lookup -/

theorem countP_take_bytes (source : String) (offset : Nat) :
    ((bytes source).take offset).countP beginsCharacter =
      (beginningBefore offset source.toList).length := by
  rw [bytes_eq_encode, countP_take_encode]

theorem count_take_bytes (source : String) (offset : Nat) :
    ((bytes source).take offset).count lineFeed =
      (beginningBefore offset source.toList).count '\n' := by
  rw [bytes_eq_encode, count_take_encode]

theorem take_append_extract {start : Nat} (hle : start ≤ stop) (all : List UInt8) :
    all.take start ++ all.extract start stop = all.take stop := by
  have htake : (all.take stop).take start = all.take start := by
    rw [List.take_take, Nat.min_eq_left hle]
  rw [List.extract_eq_take_drop, ← List.drop_take, ← htake, List.take_append_drop]

/-- The first bytes between two offsets are those of the characters that begin there. -/
theorem length_beginningBefore {start : Nat} (hle : start ≤ stop) (source : String) :
    (beginningBefore stop source.toList).length =
      (beginningBefore start source.toList).length +
        ((bytes source).extract start stop).countP beginsCharacter := by
  rw [← countP_take_bytes, ← countP_take_bytes, ← take_append_extract hle, List.countP_append]

theorem count_beginningBefore {start : Nat} (hle : start ≤ stop) (source : String) :
    (beginningBefore stop source.toList).count '\n' =
      (beginningBefore start source.toList).count '\n' +
        ((bytes source).extract start stop).count lineFeed := by
  rw [← count_take_bytes, ← count_take_bytes, ← take_append_extract hle, List.count_append]

/-- The line with the byte at `stop` begins at `start`: with the text or behind a line feed, and
there is no other line feed up to the byte. -/
structure StartsLine (source : String) (stop start : Nat) : Prop where
  le : start ≤ stop
  behind_feed : start = 0 ∨ (bytes source)[start - 1]? = some lineFeed
  no_feed : lineFeed ∉ (bytes source).extract start stop

theorem startsLine_byteCount
    (hbefore : beginningBefore stop source.toList = front ++ line) (hline : '\n' ∉ line)
    (hfront : front = [] ∨ ∃ earlier, front = earlier ++ ['\n']) :
    StartsLine source stop (byteCount front) := by
  obtain ⟨rest, hsource⟩ := beginningBefore_prefix stop source.toList
  rw [hbefore, List.append_assoc] at hsource
  have hle : byteCount front ≤ stop := by
    have hlast := List.mem_of_getLast? (getLast?_lineStarts hline hfront)
    rw [← hbefore] at hlast
    exact le_of_mem_lineStarts hlast
  refine ⟨hle, ?_, ?_⟩
  · rcases hfront with rfl | ⟨earlier, rfl⟩
    · exact Or.inl rfl
    · have hbytes : bytes source = encode earlier ++ lineFeed :: encode (line ++ rest) := by
        rw [bytes_eq_encode, ← hsource, List.append_assoc, encode_append]
        rfl
      -- The byte before the line is the line feed, which is one byte long.
      have hlast : byteCount (earlier ++ ['\n']) - 1 = (encode earlier).length := by
        rw [byteCount_append, length_encode]
        rfl
      rw [hbytes, hlast, List.getElem?_append_right (Nat.le_refl _), Nat.sub_self]
      exact Or.inr rfl
  · -- There are as many line feeds after the start as characters of this kind, which is none.
    have hcount := count_beginningBefore hle source
    rw [← hsource, beginningBefore_byteCount, hsource, hbefore, List.count_append,
      List.count_eq_zero.mpr hline] at hcount
    rw [← List.count_eq_zero]
    omega

/-- What is passed up to an offset ends in the beginning of a line. -/
theorem exists_beginningBefore_eq (source : String) (stop : Nat) :
    ∃ front line, beginningBefore stop source.toList = front ++ line ∧ '\n' ∉ line ∧
      StartsLine source stop (byteCount front) ∧
      (LineTable.ofText source).starts[front.count '\n']? = some (byteCount front) ∧
      ((bytes source).extract (byteCount front) stop).countP beginsCharacter = line.length ∧
      Position.after (front ++ line) = ⟨front.count '\n', line.length⟩ := by
  obtain ⟨rest, hsource⟩ := beginningBefore_prefix stop source.toList
  obtain ⟨front, line, hbefore, hline, hfront⟩ :=
    exists_lastLine (beginningBefore stop source.toList)
  rw [hbefore] at hsource
  have hstarts := startsLine_byteCount hbefore hline hfront
  refine ⟨front, line, hbefore, hline, hstarts, getElem?_starts hsource hline hfront, ?_,
    Position.after_append hline hfront⟩
  -- What is passed behind the start of the line is counted by the characters that begin there.
  have hlength := length_beginningBefore hstarts.le source
  rw [hbefore, ← hsource, List.append_assoc, beginningBefore_byteCount, List.length_append]
    at hlength
  omega

/-- The lookup ends where a reader ends who passes every character that begins before the offset. -/
theorem position?_eq_after (source : String) (offset : Nat) :
    (LineTable.ofText source).position? offset = some (Position.after
      (beginningBefore (min offset source.utf8ByteSize) source.toList)) := by
  generalize hstop : min offset source.utf8ByteSize = stop
  have hinside : stop ≤ source.utf8ByteSize := hstop ▸ Nat.min_le_right ..
  obtain ⟨front, line, hbefore, hline, hstarts, hstart, hcharacters, hafter⟩ :=
    exists_beginningBefore_eq source stop
  -- The search by halving ends at the line of the offset, and both lookups that follow succeed.
  have hpoint := partitionPoint_starts hinside
  rw [hbefore, List.count_append, List.count_eq_zero.mpr hline, Nat.add_zero] at hpoint
  have hslice : slice? (bytes source) (byteCount front) stop =
      some ((bytes source).extract (byteCount front) stop) :=
    if_pos ⟨hstarts.le, by rwa [length_bytes]⟩
  have htext : (LineTable.ofText source).source = source := rfl
  unfold LineTable.position?
  rw [htext, hstop]
  dsimp only
  rw [hpoint]
  simp only [Option.bind_eq_bind, Option.bind_some, hstart, hslice]
  rw [hcharacters, hbefore, hafter]
  rfl

theorem position_eq_after (source : String) (offset : Nat) :
    position source offset = Position.after
      (beginningBefore (min offset source.utf8ByteSize) source.toList) := by
  unfold position
  rw [position?_eq_after, Option.getD_some]

theorem lineCount_eq (source : String) : lineCount source = (bytes source).count lineFeed + 1 := by
  have hall : (bytes source).take source.utf8ByteSize = bytes source := by
    rw [← length_bytes, List.take_length]
  have hbefore : beginningBefore source.utf8ByteSize source.toList = source.toList := by
    have hself := beginningBefore_byteCount source.toList []
    rwa [List.append_nil, byteCount_toList] at hself
  rw [← hall, count_take_bytes, hbefore, ← length_lineStarts]
  rfl

/-! ## What positions say -/

/-- The offsets at which characters begin that stand at `offset`. -/
def characterStarts : Nat → List Char → List Nat
  | _, [] => []
  | offset, c :: chars => offset :: characterStarts (offset + c.utf8Size) chars

theorem countP_characterStarts (base stop : Nat) (chars : List Char) :
    (characterStarts base chars).countP (fun first => first < stop) =
      (beginningBefore (stop - base) chars).length := by
  induction chars generalizing base with
  | nil =>
      rw [beginningBefore_nil]
      rfl
  | cons c chars ih =>
      rw [characterStarts, List.countP_cons, ih, ← Nat.sub_sub]
      -- Whether the first character begins before the end is whether there is room for one.
      cases hroom : stop - base with
      | zero =>
          have hlate : ¬ base < stop := by omega
          rw [Nat.zero_sub, beginningBefore_zero, beginningBefore_zero,
            if_neg (by simpa using hlate)]
          rfl
      | succ room =>
          have hearly : base < stop := by omega
          rw [if_pos (by simpa using hearly), beginningBefore, List.length_cons]

theorem countP_characterStarts_between {start : Nat} (hle : start ≤ stop) (source : String) :
    (characterStarts 0 source.toList).countP (fun first => start ≤ first ∧ first < stop) =
      ((bytes source).extract start stop).countP beginsCharacter := by
  have hsplit : (characterStarts 0 source.toList).countP (fun first => first < stop) =
      (characterStarts 0 source.toList).countP (fun first => first < start) +
        (characterStarts 0 source.toList).countP (fun first => start ≤ first ∧ first < stop) := by
    induction characterStarts 0 source.toList with
    | nil => rfl
    | cons first firsts ih =>
        simp only [List.countP_cons, ih, decide_eq_true_eq]
        split_ifs <;> omega
  have hlength := length_beginningBefore hle source
  rw [countP_characterStarts, countP_characterStarts, Nat.sub_zero, Nat.sub_zero] at hsplit
  omega

/-- Behind more characters the position is the same or a later one. -/
theorem Position.after_le_of_prefix {front back : List Char} (hfront : front <+: back) :
    Position.after front = Position.after back ∨
      (Position.after front).Precedes (Position.after back) := by
  obtain ⟨more, rfl⟩ := hfront
  by_cases hmore : more = []
  · exact Or.inl (by rw [hmore, List.append_nil])
  · right
    unfold Position.after
    rw [List.foldl_append]
    exact Position.precedes_foldl_advance hmore _

theorem position_le_of_le {earlier later : Nat} (hle : earlier ≤ later) (source : String) :
    position source earlier = position source later ∨
      (position source earlier).Precedes (position source later) := by
  rw [position_eq_after, position_eq_after]
  refine Position.after_le_of_prefix (beginningBefore_mono ?_ _)
  omega

theorem position_of_append (hsource : source.toList = before ++ rest) :
    position source (byteCount before) = Position.after before := by
  have hinside : byteCount before ≤ source.utf8ByteSize := by
    rw [← byteCount_toList, hsource, byteCount_append]
    exact Nat.le_add_right ..
  rw [position_eq_after, Nat.min_eq_left hinside, hsource, beginningBefore_byteCount]

theorem position_lt_of_lt {earlier later : Nat} (hearlier : IsBoundary source.toList earlier)
    (hlater : IsBoundary source.toList later) (hlt : earlier < later) :
    (position source earlier).Precedes (position source later) := by
  obtain ⟨front, rest, hfront, rfl⟩ := isBoundary_iff.mp hearlier
  obtain ⟨back, rest', hback, rfl⟩ := isBoundary_iff.mp hlater
  obtain ⟨more, rfl, -⟩ := exists_between (hfront.symm.trans hback) (Nat.le_of_lt hlt)
  rw [position_of_append hfront, position_of_append hback]
  unfold Position.after
  rw [List.foldl_append]
  refine Position.precedes_foldl_advance ?_ _
  rintro rfl
  rw [List.append_nil] at hlt
  exact Nat.lt_irrefl _ hlt

/-- The lookup of an offset always succeeds and counts lines and characters: the line feeds before
the offset, which are fewer than the lines, and the characters that begin between the start of the
line and the offset.  An offset inside a character has the position of its end, positions are
ordered like offsets, and two boundaries with one position are the same. -/
theorem position_counts_lines_and_characters (source : String) :
    (∀ offset : Nat,
      let stop := min offset source.utf8ByteSize
      let place := position source offset
      (LineTable.ofText source).position? offset = some place ∧
      place.line = ((bytes source).take stop).count lineFeed ∧
      place.line < lineCount source ∧
      ∃ start, StartsLine source stop start ∧
        place.character = (characterStarts 0 source.toList).countP fun first =>
          start ≤ first ∧ first < stop) ∧
    (∀ before c rest offset, source.toList = before ++ c :: rest →
      byteCount before < offset → offset ≤ byteCount before + c.utf8Size →
        position source offset = position source (byteCount before + c.utf8Size)) ∧
    (∀ earlier later, earlier ≤ later →
      position source earlier = position source later ∨
        (position source earlier).Precedes (position source later)) ∧
    ∀ first second, IsBoundary source.toList first → IsBoundary source.toList second →
      position source first = position source second → first = second := by
  refine ⟨fun offset => ?_, ?_, fun earlier later hle => position_le_of_le hle source, ?_⟩
  · -- Everything is read off the last line of what is passed up to the offset.
    intro stop place
    obtain ⟨front, line, hbefore, hline, hstarts, -, hcharacters, hafter⟩ :=
      exists_beginningBefore_eq source stop
    have hplace : place = ⟨front.count '\n', line.length⟩ := by
      rw [← hafter, ← hbefore]
      exact position_eq_after source offset
    have hfeeds : ((bytes source).take stop).count lineFeed = front.count '\n' := by
      rw [count_take_bytes, hbefore, List.count_append, List.count_eq_zero.mpr hline, Nat.add_zero]
    refine ⟨?_, ?_, ?_, byteCount front, hstarts, ?_⟩
    · rw [position?_eq_after, ← position_eq_after]
    · rw [hplace, hfeeds]
    · have hle := (List.take_sublist stop (bytes source)).count_le lineFeed
      rw [hfeeds] at hle
      rw [hplace, lineCount_eq]
      exact Nat.lt_succ_of_le hle
    · rw [hplace, countP_characterStarts_between hstarts.le, hcharacters]
  · -- Up to any offset inside a character the same characters begin as up to its end.
    intro before c rest offset hsource hlower hupper
    have hsize : byteCount before + c.utf8Size ≤ source.utf8ByteSize := by
      rw [← byteCount_toList, hsource, byteCount_append, byteCount_cons]
      omega
    rw [position_eq_after, position_eq_after, hsource, Nat.min_eq_left (by omega),
      Nat.min_eq_left hsize, beginningBefore_append_cons hlower hupper,
      beginningBefore_append_cons (by omega) (Nat.le_refl _)]
  · intro first second hfirst hsecond hsame
    -- Of two boundaries the later one has the later position.
    rcases Nat.lt_trichotomy first second with hlt | heq | hlt
    · exact absurd (hsame ▸ position_lt_of_lt hfirst hsecond hlt) (Position.not_precedes_self _)
    · exact heq
    · exact absurd (hsame ▸ position_lt_of_lt hsecond hfirst hlt) (Position.not_precedes_self _)

theorem position_counts_lines_and_characters_accent :
    position "é\nx" 1 = position "é\nx" 2 ∧ position "é\nx" 2 ≠ position "é\nx" 3 := by
  obtain ⟨-, hinside, -, hapart⟩ := position_counts_lines_and_characters "é\nx"
  constructor
  · exact hinside [] 'é' ['\n', 'x'] 1 (by decide) (by decide) (by decide)
  · intro hsame
    exact absurd (hapart 2 3 (by decide) (by decide) hsame) (by decide)

end LintRepair.Text
