import LintRepair.Proofs.Patch.Rebuild
import LintRepair.Proofs.Patch.Size

/-!
# The expected size of a patched text

A patch sets memory aside before it builds its text, and computes in signed 64-bit words how much
that has to be.  No step of this says whether it has left the range of words: a length from
`2 ^ 63` on is taken for a negative number, and sums wrap around.  `Proofs.Patch.Size` shows that
the exact numbers are words whenever the replacements have passed the check.  Here the computed
numbers are shown to be the exact ones, and the last of them to be the size of the text that comes
out.

## Strategy

* One operation on words is exact when its exact result is a word (`IsWord.toInt_add`,
  `IsWord.toInt_sub`).
* The differences are summed up from the front of the list.  `SizesFit.toInt_growth_take` is the
  induction over how many of them have been: the sum so far is exact, and so is the next one, as
  that is a word as well.
* `length_rebuildBetween` counts the bytes of the rebuilt text along the reading order, where each
  replacement takes out its own length and puts in its own text.

The sums follow the list and the text follows the reading order; they meet in `inserted` and
`removed`, which are the same for both.
-/

namespace LintRepair.Patch

open Text (bytes length_bytes)

variable {source : String} {replacements : List Replacement}

/-! ## Words -/

namespace IsWord

theorem toInt_ofNat {n : Nat} (h : IsWord n) : (Int64.ofNat n).toInt = n := by
  unfold IsWord at h
  exact Int64.toInt_ofNat_of_lt (by omega)

theorem toInt_toInt64 {n : UInt64} (h : IsWord n.toNat) : n.toInt64.toInt = n.toNat := by
  have hsame : n.toInt64 = Int64.ofNat n.toNat := by
    rw [← UInt64.toInt64_ofNat', UInt64.ofNat_toNat]
  rw [hsame, h.toInt_ofNat]

theorem toInt_add {a b : Int64} (h : IsWord (a.toInt + b.toInt)) :
    (a + b).toInt = a.toInt + b.toInt := by
  unfold IsWord at h
  rw [Int64.toInt_add]
  exact Int.bmod_eq_of_le (by omega) (by omega)

theorem toInt_sub {a b : Int64} (h : IsWord (a.toInt - b.toInt)) :
    (a - b).toInt = a.toInt - b.toInt := by
  unfold IsWord at h
  rw [Int64.toInt_sub]
  exact Int.bmod_eq_of_le (by omega) (by omega)

end IsWord

theorem max_zero_eq_self {n : Int64} (h : 0 ≤ n.toInt) : max n 0 = n := by
  have hle : 0 ≤ n := Int64.le_iff_toInt_le.mpr h
  -- Of two equal words the maximum is the second.
  change (if n ≤ 0 then 0 else n) = n
  split_ifs with hge
  · exact Int64.le_antisymm hle hge
  · rfl

theorem toNat_toUInt64_of_nonneg {n : Int64} (h : 0 ≤ n.toInt) :
    n.toUInt64.toNat = n.toInt.toNat := by
  rw [Int64.toNat_toUInt64_of_le (Int64.le_iff_toInt_le.mpr h), Int64.toNat_toInt]

/-! ## The computed numbers -/

/-- All numbers that are computed on the way to the size of the patched text are the exact ones. -/
structure SizesExact (source : String) (replacements : List Replacement) : Prop where
  texts : ∀ r ∈ replacements, (Int64.ofNat r.text.utf8ByteSize).toInt = r.text.utf8ByteSize
  lengths : ∀ r ∈ replacements, r.length.toInt64.toInt = r.length.toNat
  deltas : ∀ r ∈ replacements, r.delta.toInt = r.exactDelta
  /-- The sums of the first differences, in the order of the list. -/
  sums : ∀ count, (growth (replacements.take count)).toInt =
    ((replacements.take count).map Replacement.exactDelta).sum
  before : (Int64.ofNat source.utf8ByteSize).toInt = source.utf8ByteSize
  after : (Int64.ofNat source.utf8ByteSize + growth replacements).toInt =
    source.utf8ByteSize + (replacements.map Replacement.exactDelta).sum

theorem growth_concat (front : List Replacement) (r : Replacement) :
    growth (front ++ [r]) = growth front + r.delta := by
  unfold growth
  rw [List.foldl_concat]

namespace SizesFit

theorem toInt_delta (h : SizesFit source replacements) {r : Replacement} (hr : r ∈ replacements) :
    r.delta.toInt = r.exactDelta := by
  have htext := (h.texts r hr).toInt_ofNat
  have hlength := (h.lengths r hr).toInt_toInt64
  have hword : IsWord ((Int64.ofNat r.text.utf8ByteSize).toInt - r.length.toInt64.toInt) := by
    rw [htext, hlength]
    exact h.deltas r hr
  unfold Replacement.delta
  rw [hword.toInt_sub, htext, hlength]
  rfl

theorem toInt_growth_take (h : SizesFit source replacements) (count : Nat) :
    (growth (replacements.take count)).toInt =
      ((replacements.take count).map Replacement.exactDelta).sum := by
  induction count with
  | zero => rfl
  | succ count ih =>
      cases hnext : replacements[count]? with
      | none =>
          -- Past the end of the list nothing is added.
          have hend : replacements.take (count + 1) = replacements.take count := by
            rw [List.take_add_one, hnext, Option.toList_none, List.append_nil]
          rw [hend]
          exact ih
      | some r =>
          have hconcat : replacements.take (count + 1) = replacements.take count ++ [r] := by
            rw [List.take_add_one, hnext, Option.toList_some]
          have hdelta := h.toInt_delta (List.mem_of_getElem? hnext)
          have hsum : ((replacements.take (count + 1)).map Replacement.exactDelta).sum =
              (growth (replacements.take count)).toInt + r.delta.toInt := by
            rw [hconcat, List.map_append, List.sum_append, List.map_singleton, List.sum_singleton,
              ih, hdelta]
          -- This sum is one of those known to be words, so the addition does not wrap.
          have hword : IsWord ((growth (replacements.take count)).toInt + r.delta.toInt) := by
            rw [← hsum]
            exact h.sums (count + 1)
          calc (growth (replacements.take (count + 1))).toInt
              = (growth (replacements.take count) + r.delta).toInt := by
                rw [hconcat, growth_concat]
            _ = (growth (replacements.take count)).toInt + r.delta.toInt := hword.toInt_add
            _ = ((replacements.take (count + 1)).map Replacement.exactDelta).sum := hsum.symm

theorem toInt_growth (h : SizesFit source replacements) :
    (growth replacements).toInt = (replacements.map Replacement.exactDelta).sum := by
  have hall := h.toInt_growth_take replacements.length
  rwa [List.take_length] at hall

theorem toInt_total (h : SizesFit source replacements) :
    (Int64.ofNat source.utf8ByteSize + growth replacements).toInt =
      source.utf8ByteSize + (replacements.map Replacement.exactDelta).sum := by
  have hbefore := h.before.toInt_ofNat
  have hword : IsWord ((Int64.ofNat source.utf8ByteSize).toInt + (growth replacements).toInt) := by
    rw [hbefore, h.toInt_growth]
    exact h.after
  rw [hword.toInt_add, hbefore, h.toInt_growth]

theorem sizesExact (h : SizesFit source replacements) : SizesExact source replacements where
  texts r hr := (h.texts r hr).toInt_ofNat
  lengths r hr := (h.lengths r hr).toInt_toInt64
  deltas _ hr := h.toInt_delta hr
  sums := h.toInt_growth_take
  before := h.before.toInt_ofNat
  after := h.toInt_total

end SizesFit

/-! ## The size of the text -/

theorem inserted_readingOrder (replacements : List Replacement) :
    inserted (readingOrder replacements) = inserted replacements :=
  ((readingOrder_perm replacements).map _).sum_nat

theorem length_extract {source : List UInt8} {start stop : Nat} (hstop : stop ≤ source.length) :
    (source.extract start stop).length = stop - start := by
  rw [List.extract_eq_take_drop, List.length_take, List.length_drop]
  omega

/-- From an offset on, a rebuilt text is shorter than the source by what is taken out and longer by
what is put in. -/
theorem length_rebuildBetween {order : List Replacement} {start : Nat}
    (horder : InOrder source start order) :
    start + (rebuildBetween (bytes source) source.utf8ByteSize start order).length +
      removed order = source.utf8ByteSize + inserted order := by
  induction horder with
  | @nil start hsize =>
      have hremoved : removed [] = 0 := rfl
      have hinserted : inserted [] = 0 := rfl
      rw [rebuildBetween, length_extract (Nat.le_of_eq (length_bytes source).symm), hremoved,
        hinserted]
      omega
  | @cons start r rest hstart hvalid _ ih =>
      have hstop := Replacement.stop_eq_of_validate hvalid
      have hfits := (Replacement.validate_eq_ok_iff.mp hvalid).2.1
      have hgap : ((bytes source).extract start r.start.toNat).length = r.start.toNat - start :=
        length_extract (by rw [length_bytes]; omega)
      have hremoved : removed (r :: rest) = r.length.toNat + removed rest := rfl
      have hinserted : inserted (r :: rest) = r.text.utf8ByteSize + inserted rest := rfl
      rw [rebuildBetween, List.length_append, List.length_append, hgap, length_bytes]
      omega

theorem size_of_apply {content : String} (happly : apply source replacements = .ok content) :
    content.utf8ByteSize + removed replacements =
      source.utf8ByteSize + inserted replacements := by
  obtain ⟨hvalid, hdisjoint⟩ := check_eq_ok_iff.mp (check_of_apply happly)
  obtain ⟨patched, hpatched, _, hbytes⟩ := exists_apply_eq_ok hvalid hdisjoint
  rw [happly, Except.ok.injEq] at hpatched
  subst hpatched
  have hlength := length_rebuildBetween (inOrder_readingOrder hvalid hdisjoint)
  rw [removed_readingOrder, inserted_readingOrder] at hlength
  rw [← length_bytes content, hbytes, rebuild, length_bytes source]
  omega

/-- When the replacements have passed the check, and the source and all texts fit into memory
together, the size of the patched text is computed exactly.  No difference, no sum on the way and
no total leaves the range of words, and each of them is the exact number.  What is removed is never
more than the source has, so that the total is not negative and the lower bound of the expected size
changes nothing.  The expected size is the number of bytes of the text that comes out. -/
theorem expectedSize_is_exact (hcheck : check source replacements = .ok ())
    (hmemory : source.utf8ByteSize + inserted replacements < 2 ^ 63) :
    SizesFit source replacements ∧ SizesExact source replacements ∧
    -(source.utf8ByteSize : Int) ≤ (growth replacements).toInt ∧
    max (Int64.ofNat source.utf8ByteSize + growth replacements) 0 =
      Int64.ofNat source.utf8ByteSize + growth replacements ∧
    ∃ content, apply source replacements = .ok content ∧
      (expectedSize source replacements).toNat = content.utf8ByteSize ∧
      removed replacements ≤ source.utf8ByteSize ∧
      content.utf8ByteSize =
        source.utf8ByteSize - removed replacements + inserted replacements := by
  obtain ⟨hvalid, hdisjoint⟩ := check_eq_ok_iff.mp hcheck
  have hremoved := removed_le hvalid hdisjoint
  have hfit := sizesFit hvalid hdisjoint hmemory
  have htotal := hfit.toInt_total
  have hgrowth := hfit.toInt_growth
  rw [sum_exactDelta] at htotal hgrowth
  have hnonneg : 0 ≤ (Int64.ofNat source.utf8ByteSize + growth replacements).toInt := by omega
  -- The size of the result is known from its bytes, without any word.
  refine ⟨hfit, hfit.sizesExact, by omega, max_zero_eq_self hnonneg, ?_⟩
  have happly := apply_of_check hcheck
  have hsize := size_of_apply happly
  refine ⟨_, happly, ?_, hremoved, by omega⟩
  unfold expectedSize
  rw [max_zero_eq_self hnonneg, toNat_toUInt64_of_nonneg hnonneg]
  omega

/-- Two spans that go before a text comes in: the sums fall below zero on the way, and the last
replacement of the list is the first of the text. -/
theorem expectedSize_is_exact_shrinking :
    check "aé…b" [⟨3, 3, "", 0⟩, ⟨6, 1, "", 0⟩, ⟨1, 2, "XéY", 0⟩] = .ok () ∧
      "aé…b".utf8ByteSize + inserted [⟨3, 3, "", 0⟩, ⟨6, 1, "", 0⟩, ⟨1, 2, "XéY", 0⟩] < 2 ^ 63 ∧
      ∃ content, apply "aé…b" [⟨3, 3, "", 0⟩, ⟨6, 1, "", 0⟩, ⟨1, 2, "XéY", 0⟩] = .ok content ∧
        content.utf8ByteSize = 5 ∧
        (expectedSize "aé…b" [⟨3, 3, "", 0⟩, ⟨6, 1, "", 0⟩, ⟨1, 2, "XéY", 0⟩]).toNat = 5 := by
  have hvalid : ∀ r ∈ [⟨3, 3, "", 0⟩, ⟨6, 1, "", 0⟩, ⟨1, 2, "XéY", 0⟩],
      Replacement.validate r "aé…b" = .ok () := by
    simp only [List.forall_mem_cons]
    exact ⟨rfl, rfl, rfl, by simp⟩
  have hcheck : check "aé…b" [⟨3, 3, "", 0⟩, ⟨6, 1, "", 0⟩, ⟨1, 2, "XéY", 0⟩] = .ok () :=
    check_eq_ok_iff.mpr ⟨hvalid, by decide⟩
  have hmemory : "aé…b".utf8ByteSize +
      inserted [⟨3, 3, "", 0⟩, ⟨6, 1, "", 0⟩, ⟨1, 2, "XéY", 0⟩] < 2 ^ 63 := by decide
  obtain ⟨_, _, _, _, content, happly, hexpected, _, hsize⟩ :=
    expectedSize_is_exact hcheck hmemory
  have hfive : content.utf8ByteSize = 5 := hsize
  exact ⟨hcheck, hmemory, content, happly, hfive, hexpected.trans hfive⟩

end LintRepair.Patch
