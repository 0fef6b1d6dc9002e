import Mathlib.Data.List.Basic
import Mathlib.Tactic.Common
import LintRepair.Proofs.Text.FirstBytes

/-!
# Tables of line starts

The starts of the lines that have begun at an offset stand in a table in front of those behind the
offset (`starts_ofText`), and halving a table that is cut in two like this finds the cut
(`partitionPoint_append`).  What stands in front of the cut is the end of the last line feed before
the offset (`getElem?_starts`), or the beginning of the text if there is none.
-/

namespace LintRepair.Text

variable {chars before rest front line : List Char} {base offset stop : Nat} {source : String}

/-! ## Line feeds -/

theorem lineFeeds_append (base : Nat) (front back : List Char) :
    lineFeeds base (front ++ back) =
      lineFeeds base front ++ lineFeeds (base + byteCount front) back := by
  induction front generalizing base with
  | nil => rfl
  | cons c front ih =>
      rw [List.cons_append, lineFeeds, lineFeeds, ih, byteCount_cons, ← Nat.add_assoc]
      split
      · rfl
      · rfl

theorem length_lineFeeds (base : Nat) (chars : List Char) :
    (lineFeeds base chars).length = chars.count '\n' := by
  induction chars generalizing base with
  | nil => rfl
  | cons c chars ih =>
      rw [lineFeeds, List.count_cons]
      split
      · next hc => rw [List.length_cons, ih, if_pos (beq_iff_eq.mpr hc)]
      · next hc => rw [ih, if_neg fun hbeq => hc (beq_iff_eq.mp hbeq), Nat.add_zero]

theorem lineFeeds_eq_nil (hchars : '\n' ∉ chars) : lineFeeds base chars = [] := by
  rw [← List.length_eq_zero_iff, length_lineFeeds, List.count_eq_zero]
  exact hchars

theorem le_of_mem_lineFeeds (hmem : offset ∈ lineFeeds base chars) : base ≤ offset := by
  induction chars generalizing base with
  | nil => exact absurd hmem List.not_mem_nil
  | cons c chars ih =>
      rw [lineFeeds] at hmem
      split at hmem
      · rcases List.mem_cons.mp hmem with rfl | hmem
        · exact Nat.le_refl _
        · exact Nat.le_trans (Nat.le_add_right ..) (ih hmem)
      · exact Nat.le_trans (Nat.le_add_right ..) (ih hmem)

theorem lt_of_mem_lineFeeds (hmem : offset ∈ lineFeeds base (beginningBefore stop chars)) :
    offset < base + stop := by
  fun_induction beginningBefore stop chars generalizing base with
  | case1 => exact absurd hmem List.not_mem_nil
  | case2 => exact absurd hmem List.not_mem_nil
  | case3 stop c chars ih =>
      have hrest : offset ∈ lineFeeds (base + c.utf8Size)
          (beginningBefore (stop + 1 - c.utf8Size) chars) → offset < base + (stop + 1) := by
        intro hrest
        by_cases hsize : c.utf8Size ≤ stop + 1
        · have hlt := ih hrest
          omega
        · -- The character goes past the offset, and nothing begins behind it.
          have hnone : stop + 1 - c.utf8Size = 0 := by omega
          rw [hnone, beginningBefore_zero] at hrest
          exact absurd hrest List.not_mem_nil
      rw [lineFeeds] at hmem
      split at hmem
      · rcases List.mem_cons.mp hmem with rfl | hmem
        · omega
        · exact hrest hmem
      · exact hrest hmem

/-! ## Halving -/

/-- Halving comes to the last place that holds, or stays at the first one if none does. -/
theorem lastHolding_bounds {holds : Nat → Bool} {base size point : Nat}
    (hholds : ∀ place, place < base + size → (holds place = true ↔ place < point))
    (hsize : 0 < size) (hlower : base ≤ point) (hupper : point ≤ base + size) :
    lastHolding holds base size < base + size ∧ lastHolding holds base size ≤ point ∧
      point ≤ lastHolding holds base size + 1 := by
  fun_induction lastHolding holds base size with
  | case1 base size hone => omega
  | case2 base size hone middle ih =>
      -- The half that is kept still has the point between its ends.
      have hmiddle := hholds middle (by omega)
      split at ih
      · next htrue =>
        have hlt := hmiddle.mp htrue
        obtain ⟨hinside, hle, hge⟩ :=
          ih (fun place hplace => hholds place (by omega)) (by omega) (by omega) (by omega)
        rw [if_pos htrue]
        exact ⟨by omega, hle, hge⟩
      · next hfalse =>
        have hge : ¬ middle < point := fun hlt => hfalse (hmiddle.mpr hlt)
        obtain ⟨hinside, hle, hge⟩ :=
          ih (fun place hplace => hholds place (by omega)) (by omega) (by omega) (by omega)
        rw [if_neg hfalse]
        exact ⟨by omega, hle, hge⟩

/-- If the items that hold stand in front of all others, they are counted. -/
theorem partitionPoint_append {α : Type} {front back : List α} {holds : α → Bool}
    (hfront : ∀ item ∈ front, holds item = true) (hback : ∀ item ∈ back, holds item = false) :
    partitionPoint (front ++ back).toArray holds = front.length := by
  have hholds : ∀ place, place < 0 + (front ++ back).length →
      ((front ++ back).toArray[place]?.any holds = true ↔ place < front.length) := by
    intro place hplace
    rw [List.getElem?_toArray]
    by_cases hlt : place < front.length
    · rw [List.getElem?_append_left hlt, List.getElem?_eq_getElem hlt, Option.any_some]
      exact ⟨fun _ => hlt, fun _ => hfront _ (List.getElem_mem hlt)⟩
    · rw [List.length_append] at hplace
      have hback' : place - front.length < back.length := by omega
      rw [List.getElem?_append_right (by omega), List.getElem?_eq_getElem hback', Option.any_some,
        hback _ (List.getElem_mem hback')]
      exact ⟨fun h => absurd h Bool.false_ne_true, fun h => absurd h hlt⟩
  -- The search needs to know of every place that it may look at, and of no other.
  unfold partitionPoint
  dsimp only
  rw [List.size_toArray]
  split
  · next hnone =>
    rw [List.length_append] at hnone
    omega
  next hsome =>
  obtain ⟨hinside, hle, hge⟩ := lastHolding_bounds hholds (by omega) (Nat.zero_le _)
    (by rw [List.length_append]; omega)
  generalize lastHolding _ 0 _ = last at hinside hle hge ⊢
  -- The place where halving stops counts itself if it holds.
  have hlast := hholds last hinside
  split
  · next htrue =>
    have hlt := hlast.mp htrue
    omega
  · next hfalse =>
    have hnot : ¬ last < front.length := fun hlt => hfalse (hlast.mpr hlt)
    omega

/-! ## Starts of lines -/

/-- The offsets at which lines begin, for characters at the beginning of a text. -/
def lineStarts (chars : List Char) : List Nat :=
  0 :: (lineFeeds 0 chars).map (· + 1)

/-- A text ends in a line of its own, which begins behind the last line feed. -/
theorem exists_lastLine (before : List Char) :
    ∃ front line, before = front ++ line ∧ '\n' ∉ line ∧
      (front = [] ∨ ∃ earlier, front = earlier ++ ['\n']) := by
  by_cases hfeed : '\n' ∈ before
  · obtain ⟨line, earlier, hreverse, hline⟩ :=
      List.eq_append_cons_of_mem (List.mem_reverse.mpr hfeed)
    refine ⟨earlier.reverse ++ ['\n'], line.reverse, ?_, ?_, Or.inr ⟨_, rfl⟩⟩
    · rw [← List.reverse_reverse before, hreverse]
      simp
    · rw [List.mem_reverse]
      exact hline
  · exact ⟨[], before, rfl, hfeed, Or.inl rfl⟩

theorem getLast?_lineStarts (hline : '\n' ∉ line)
    (hfront : front = [] ∨ ∃ earlier, front = earlier ++ ['\n']) :
    (lineStarts (front ++ line)).getLast? = some (byteCount front) := by
  unfold lineStarts
  rw [lineFeeds_append, lineFeeds_eq_nil hline, List.append_nil]
  rcases hfront with rfl | ⟨earlier, rfl⟩
  · rfl
  · have hfeeds : lineFeeds 0 (earlier ++ ['\n']) = lineFeeds 0 earlier ++ [byteCount earlier] := by
      rw [lineFeeds_append, Nat.zero_add]
      rfl
    rw [hfeeds, List.map_append, ← List.cons_append, List.map_singleton, List.getLast?_concat,
      byteCount_append]
    rfl

theorem le_of_mem_lineStarts {start : Nat}
    (hmem : start ∈ lineStarts (beginningBefore stop chars)) : start ≤ stop := by
  unfold lineStarts at hmem
  rcases List.mem_cons.mp hmem with rfl | hmem
  · exact Nat.zero_le _
  · obtain ⟨feed, hfeed, rfl⟩ := List.mem_map.mp hmem
    have hlt := lt_of_mem_lineFeeds hfeed
    omega

theorem length_lineStarts (chars : List Char) :
    (lineStarts chars).length = chars.count '\n' + 1 := by
  unfold lineStarts
  rw [List.length_cons, List.length_map, length_lineFeeds]

/-- The table holds the starts of the lines that have begun, and then the others. -/
theorem starts_ofText (hsource : before ++ rest = source.toList) :
    (LineTable.ofText source).starts =
      (lineStarts before ++ (lineFeeds (byteCount before) rest).map (· + 1)).toArray := by
  unfold LineTable.ofText lineStarts
  rw [← hsource, lineFeeds_append, Nat.zero_add, List.map_append, List.cons_append]

theorem partitionPoint_starts (hinside : stop ≤ source.utf8ByteSize) :
    partitionPoint (LineTable.ofText source).starts (fun start => start ≤ stop) =
      (beginningBefore stop source.toList).count '\n' + 1 := by
  obtain ⟨rest, hsource⟩ := beginningBefore_prefix stop source.toList
  have hreach : stop ≤ byteCount (beginningBefore stop source.toList) :=
    le_byteCount_beginningBefore (by rwa [byteCount_toList])
  rw [starts_ofText hsource, ← length_lineStarts]
  refine partitionPoint_append ?_ ?_
  · intro start hstart
    exact decide_eq_true (le_of_mem_lineStarts hstart)
  · rw [List.forall_mem_map]
    intro feed hfeed
    have hle := le_of_mem_lineFeeds hfeed
    exact decide_eq_false (by omega)

/-- The last line that has begun is found in the table. -/
theorem getElem?_starts (hsource : (front ++ line) ++ rest = source.toList) (hline : '\n' ∉ line)
    (hfront : front = [] ∨ ∃ earlier, front = earlier ++ ['\n']) :
    (LineTable.ofText source).starts[front.count '\n']? = some (byteCount front) := by
  have hlength : (lineStarts (front ++ line)).length = front.count '\n' + 1 := by
    rw [length_lineStarts, List.count_append, List.count_eq_zero.mpr hline, Nat.add_zero]
  rw [starts_ofText hsource, List.getElem?_toArray, List.getElem?_append_left (by omega),
    ← getLast?_lineStarts hline hfront, List.getLast?_eq_getElem?, hlength, Nat.add_sub_cancel]

end LintRepair.Text
