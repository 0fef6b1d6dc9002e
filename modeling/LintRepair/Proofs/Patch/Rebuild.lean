import LintRepair.Proofs.Patch.ReadingOrder
import LintRepair.Proofs.Text.Encoding

/-!
# The patched text

A patch works from back to front on a text that it has already changed.  The reference here goes the
other way: `rebuild` reads the bytes of the untouched source from left to right, copies what lies
between the replacements, and puts each text in its place.

## Strategy

On disjoint replacements the order of application is the reading order reversed, so carrying them
out is a fold from the right over the reading order.  `spliceAll?_reverse` is the induction over it:
after all replacements behind a cut have been carried out, the text still starts with the characters
before the cut, and what follows them is the rebuilt rest.  The next replacement ends at or before
the cut, so its span means what it meant in the source.

`spliceAll?` is the same run in which a span that misses the character boundaries of the text it
meets is an error.  That it never is comes out of the same induction.
-/

namespace LintRepair.Patch

open Text (bytes encode byteCount length_bytes)

variable {source : String} {replacements : List Replacement}

/-! ## Rebuilding -/

/-- The bytes of `source` from `start` up to `stop`, with the spans of some replacements exchanged
for their texts. -/
def rebuildBetween (source : List UInt8) (stop : Nat) : Nat → List Replacement → List UInt8
  | start, [] => source.extract start stop
  | start, r :: rest =>
      source.extract start r.start.toNat ++ bytes r.text ++ rebuildBetween source stop r.stop rest

/-- The bytes of a patched text, from left to right. -/
def rebuild (source : List UInt8) (replacements : List Replacement) : List UInt8 :=
  rebuildBetween source source.length 0 (readingOrder replacements)

example : rebuild (bytes "aé…b") [⟨3, 3, "Y", 0⟩, ⟨3, 0, "high", 5⟩, ⟨1, 2, "X", 9⟩,
    ⟨3, 0, "low", 0⟩] = bytes "aXlowhighYb" := by cbv

/-- Carries replacements out one after the other, and fails when one of them does not meet character
boundaries. -/
def spliceAll? (order : List Replacement) (chars : List Char) : Option (List Char) :=
  order.foldlM (fun content r =>
    Text.replaceSpan? content r.start.toNat r.stop r.text.toList) chars

theorem spliceAll_eq_of_spliceAll? {order : List Replacement} {chars content : List Char}
    (h : spliceAll? order chars = some content) : spliceAll order chars = content := by
  induction order generalizing chars with
  | nil => exact Option.some.inj h
  | cons r rest ih =>
      unfold spliceAll? at h
      rw [List.foldlM_cons] at h
      obtain ⟨next, hnext, hrest⟩ := Option.bind_eq_some_iff.mp h
      have hsplice : r.splice chars = next := by
        unfold Replacement.splice
        rw [hnext, Option.getD_some]
      rw [← ih hrest, ← hsplice]
      rfl

theorem spliceAll?_append (front back : List Replacement) (chars : List Char) :
    spliceAll? (front ++ back) chars = (spliceAll? front chars).bind (spliceAll? back) := by
  unfold spliceAll?
  rw [List.foldlM_append]
  rfl

theorem spliceAll?_singleton (r : Replacement) (chars : List Char) :
    spliceAll? [r] chars = Text.replaceSpan? chars r.start.toNat r.stop r.text.toList := by
  simp [spliceAll?]

/-! ## Back to front -/

/-- Carrying out replacements in order behind a cut leaves what is before the cut alone and rebuilds
the rest. -/
theorem spliceAll?_reverse {order : List Replacement} {start : Nat} {before after : List Char}
    (horder : InOrder source start order) (hcut : source.toList = before ++ after)
    (hbefore : byteCount before = start) :
    ∃ tail, spliceAll? order.reverse source.toList = some (before ++ tail) ∧
      encode tail = rebuildBetween (bytes source) source.utf8ByteSize start order := by
  induction horder generalizing before after with
  | nil =>
      refine ⟨after, by rw [hcut]; rfl, ?_⟩
      have hsize : source.utf8ByteSize = byteCount before + byteCount after := by
        rw [← Text.byteCount_toList, hcut, Text.byteCount_append]
      rw [rebuildBetween, hsize, ← hbefore, Text.bytes_eq_encode, hcut]
      have hrest := Text.extract_encode before after []
      rw [List.append_nil] at hrest
      exact hrest.symm
  | @cons start r rest hstart hvalid _ ih =>
      have hstop := Replacement.stop_eq_of_validate hvalid
      obtain ⟨_, _, hfirst, hsecond⟩ := Replacement.validate_eq_ok_iff.mp hvalid
      obtain ⟨upToStart, fromStart, hstartCut, hstartCount⟩ := Text.isBoundary_iff.mp hfirst
      obtain ⟨upToStop, beyond, hstopCut, hstopCount⟩ := Text.isBoundary_iff.mp hsecond
      -- The replacements behind `r` are carried out first, and leave the text up to its end alone.
      obtain ⟨tail, hrun, htail⟩ := ih hstopCut (by rw [hstop, hstopCount])
      obtain ⟨gap, rfl, _⟩ := Text.exists_between (hcut.symm.trans hstartCut)
        (by rw [hbefore, hstartCount]; exact hstart)
      obtain ⟨removed, rfl, _⟩ := Text.exists_between (hstartCut.symm.trans hstopCut)
        (by rw [hstartCount, hstopCount]; exact Nat.le_add_right ..)
      have hspan : r.stop = byteCount (before ++ gap) + byteCount removed := by
        rw [hstop, ← hstopCount, Text.byteCount_append]
      have hsplice : Text.replaceSpan? (before ++ gap ++ removed ++ tail) r.start.toNat r.stop
          r.text.toList = some (before ++ gap ++ r.text.toList ++ tail) := by
        rw [hspan, ← hstartCount]
        exact Text.replaceSpan?_append ..
      have hgap : (bytes source).extract start r.start.toNat = encode gap := by
        rw [Text.bytes_eq_encode, hstartCut, List.append_assoc, ← hstartCount,
          Text.byteCount_append, ← hbefore]
        exact Text.extract_encode ..
      refine ⟨gap ++ (r.text.toList ++ tail), ?_, ?_⟩
      · rw [List.reverse_cons, spliceAll?_append, hrun, Option.bind_some, spliceAll?_singleton,
          hsplice]
        simp
      · rw [rebuildBetween, hgap, Text.bytes_eq_encode r.text, ← htail]
        simp

/-- Replacements that fit and are disjoint are carried out without a failure, and give the rebuilt
text. -/
theorem exists_apply_eq_ok (hvalid : ∀ r ∈ replacements, r.validate source = .ok ())
    (hdisjoint : replacements.Pairwise fun a b => ¬ a.Overlaps b) :
    ∃ content, apply source replacements = .ok content ∧
      spliceAll? (applicationOrder replacements) source.toList = some content.toList ∧
      bytes content = rebuild (bytes source) replacements := by
  obtain ⟨chars, hrun, hchars⟩ := spliceAll?_reverse (inOrder_readingOrder hvalid hdisjoint)
    (List.nil_append source.toList).symm Text.byteCount_nil
  rw [← applicationOrder_eq_reverse hdisjoint, List.nil_append] at hrun
  refine ⟨String.ofList chars, ?_, ?_, ?_⟩
  · rw [apply_of_check (check_eq_ok_iff.mpr ⟨hvalid, hdisjoint⟩), spliceAll_eq_of_spliceAll? hrun]
  · rw [hrun, String.toList_ofList]
  · rw [Text.bytes_ofList, hchars]
    rfl

/-! ## Around an offset -/

@[simp] theorem extract_self (source : List UInt8) (offset : Nat) :
    source.extract offset offset = [] := by
  rw [List.extract_eq_take_drop, Nat.sub_self, List.take_zero]

theorem extract_append_extract {source : List UInt8} {start offset stop : Nat}
    (hstart : start ≤ offset) (hstop : offset ≤ stop) :
    source.extract start offset ++ source.extract offset stop = source.extract start stop := by
  have hlength : stop - start = (offset - start) + (stop - offset) := by omega
  have hdrop : source.drop offset = (source.drop start).drop (offset - start) := by
    rw [List.drop_drop]
    congr 1
    omega
  simp only [List.extract_eq_take_drop]
  rw [hlength, List.take_add, hdrop]

/-- A rebuilt text falls apart at an offset that no replacement reaches across. -/
theorem rebuildBetween_append {source : List UInt8} {start offset stop : Nat}
    {front back : List Replacement} (hstart : start ≤ offset) (hstop : offset ≤ stop)
    (hfront : ∀ r ∈ front, r.stop ≤ offset) (hback : ∀ r ∈ back, offset ≤ r.start.toNat) :
    rebuildBetween source stop start (front ++ back) =
      rebuildBetween source offset start front ++ rebuildBetween source stop offset back := by
  induction front generalizing start with
  | nil =>
      cases back with
      | nil => exact (extract_append_extract hstart hstop).symm
      | cons r back =>
          rw [List.nil_append, rebuildBetween, rebuildBetween, rebuildBetween,
            ← extract_append_extract hstart (hback r List.mem_cons_self)]
          simp only [List.append_assoc]
  | cons r front ih =>
      rw [List.forall_mem_cons] at hfront
      rw [List.cons_append, rebuildBetween, rebuildBetween, ih hfront.1 hfront.2]
      simp only [List.append_assoc]

/-- Insertions at the place where rebuilding begins put their texts in front. -/
theorem rebuildBetween_insertions {source : List UInt8} {offset stop : Nat}
    {insertions rest : List Replacement} (hinsertions : ∀ r ∈ insertions, r.InsertsAt offset) :
    rebuildBetween source stop offset (insertions ++ rest) =
      insertions.flatMap (fun r => bytes r.text) ++ rebuildBetween source stop offset rest := by
  induction insertions with
  | nil => rfl
  | cons r insertions ih =>
      rw [List.forall_mem_cons] at hinsertions
      rw [List.cons_append, rebuildBetween, hinsertions.1.stop_eq, hinsertions.1.2, extract_self,
        ih hinsertions.2]
      simp

/-- The text of a replacement that ends where rebuilding ends comes last. -/
theorem suffix_rebuildBetween {source : List UInt8} {stop : Nat} {order : List Replacement}
    {r : Replacement} (horder : order.Pairwise Replacement.Before)
    (hstarts : ∀ s ∈ order, s.start.toNat < stop) (hr : r ∈ order) (hstop : r.stop = stop) :
    bytes r.text <:+ rebuildBetween source stop 0 order := by
  obtain ⟨front, back, rfl⟩ := List.append_of_mem hr
  rw [List.pairwise_append, List.pairwise_cons] at horder
  obtain ⟨_, ⟨hback, _⟩, hacross⟩ := horder
  -- Nothing comes after the replacement: it would start where rebuilding ends, or later.
  have hlast : back = [] := by
    rw [List.eq_nil_iff_forall_not_mem]
    intro s hs
    have hbefore : r.stop ≤ s.start.toNat := hback s hs
    have hstart := hstarts s (List.mem_append_right _ (List.mem_cons_of_mem _ hs))
    omega
  subst hlast
  have hlt := hstarts r hr
  rw [rebuildBetween_append (Nat.zero_le _) (Nat.le_of_lt hlt)
    (fun s hs => hacross s hs r List.mem_cons_self) (by simp), rebuildBetween, rebuildBetween,
    hstop, extract_self, extract_self, List.nil_append, List.append_nil]
  exact List.suffix_append ..

/-- The text of a replacement that starts where rebuilding starts comes first, unless insertions
do. -/
theorem prefix_rebuildBetween {source : List UInt8} {start stop : Nat} {order : List Replacement}
    {r : Replacement} (horder : order.Pairwise Replacement.Before)
    (hstarts : ∀ s ∈ order, start < s.stop) (hr : r ∈ order) (hstart : r.start.toNat = start) :
    bytes r.text <+: rebuildBetween source stop start order := by
  obtain ⟨front, back, rfl⟩ := List.append_of_mem hr
  -- Nothing comes before the replacement: it would end where rebuilding starts, or earlier.
  have hfirst : front = [] := by
    rw [List.eq_nil_iff_forall_not_mem]
    intro s hs
    have hbefore : s.stop ≤ r.start.toNat :=
      (List.pairwise_append.mp horder).2.2 s hs r List.mem_cons_self
    have hend := hstarts s (List.mem_append_left _ hs)
    omega
  subst hfirst
  rw [List.nil_append, rebuildBetween, hstart, extract_self, List.nil_append]
  exact List.prefix_append ..

/-- Replacements that fit and are disjoint can be applied, and the patched text is the source read
from left to right with every span exchanged for its text.  The insertions at an offset stand
together there, by priority and then position, behind the text of a span that ends at the offset
and before that of a span that starts there. -/
theorem apply_eq_rebuild (hvalid : ∀ r ∈ replacements, r.validate source = .ok ())
    (hdisjoint : replacements.Pairwise fun a b => ¬ a.Overlaps b) :
    ∃ content, apply source replacements = .ok content ∧
      bytes content = rebuild (bytes source) replacements ∧
      ∀ offset, (∃ r ∈ replacements, r.InsertsAt offset) →
        ∃ earlier later,
          readingOrder replacements = earlier ++ (insertionsAt replacements offset ++ later) ∧
          bytes content = rebuildBetween (bytes source) offset 0 earlier ++
            ((insertionsAt replacements offset).flatMap (fun r => bytes r.text) ++
              rebuildBetween (bytes source) source.utf8ByteSize offset later) ∧
          (∀ r ∈ replacements, ¬ r.InsertsAt offset → r.stop = offset →
            bytes r.text <:+ rebuildBetween (bytes source) offset 0 earlier) ∧
          (∀ r ∈ replacements, ¬ r.InsertsAt offset → r.start.toNat = offset →
            bytes r.text <+: rebuildBetween (bytes source) source.utf8ByteSize offset later) := by
  obtain ⟨content, happly, _, hcontent⟩ := exists_apply_eq_ok hvalid hdisjoint
  refine ⟨content, happly, hcontent, ?_⟩
  rintro offset ⟨insertion, hmem, hinserts⟩
  -- In reading order the insertions at the offset stand together, between what ends before it and
  -- what starts after it.
  obtain ⟨earlier, later, hsplit⟩ := exists_splitAt hvalid offset
  have hinsertion : insertion ∈ insertionsAt replacements offset :=
    mem_insertionsAt.mpr ⟨hmem, hinserts⟩
  have hins : ∀ r ∈ insertionsAt replacements offset, r.InsertsAt offset :=
    fun r hr => (mem_insertionsAt.mp hr).2
  obtain ⟨hearlierOrder, hlaterOrder⟩ := hsplit.pairwise hdisjoint
  refine ⟨earlier, later, hsplit.order, ?_, ?_, ?_⟩
  · -- The rebuilt text is cut at the offset on both sides of the insertions.
    have hsize : offset ≤ source.utf8ByteSize := by
      have hfits := (Replacement.validate_eq_ok_iff.mp (hvalid insertion hmem)).2.1
      rw [hinserts.2] at hfits
      omega
    have hback : ∀ r ∈ insertionsAt replacements offset ++ later, offset ≤ r.start.toNat := by
      intro r hr
      rcases List.mem_append.mp hr with hr | hr
      · exact Nat.le_of_eq (hins r hr).2.symm
      · exact hsplit.starts_behind r hr
    rw [hcontent, rebuild, hsplit.order, length_bytes,
      rebuildBetween_append (Nat.zero_le _) hsize
        (fun r hr => hsplit.stop_le hdisjoint hinsertion hr) hback,
      rebuildBetween_insertions hins]
  · intro r hr hnot hstop
    rcases hsplit.mem_iff.mp hr with hr | hr | hr
    · exact suffix_rebuildBetween hearlierOrder hsplit.starts_before hr hstop
    · exact absurd (hins r hr) hnot
    · -- What stands behind the insertions ends behind the offset.
      exact absurd hstop (Nat.ne_of_gt (hsplit.lt_stop hvalid hr))
  · intro r hr hnot hstart
    rcases hsplit.mem_iff.mp hr with hr | hr | hr
    · -- What stands before the insertions starts before the offset.
      exact absurd hstart (Nat.ne_of_lt (hsplit.starts_before r hr))
    · exact absurd (hins r hr) hnot
    · exact prefix_rebuildBetween hlaterOrder (fun s hs => hsplit.lt_stop hvalid hs) hr hstart

/-- Three insertions between two ranges that touch, of which the first has the highest priority. -/
theorem apply_eq_rebuild_touching :
    ∃ content, apply "aé…b" [⟨3, 3, "Y", 0⟩, ⟨3, 0, "high", 5⟩, ⟨1, 2, "X", 9⟩,
        ⟨3, 0, "low", -1⟩, ⟨3, 0, "er", -1⟩] = .ok content ∧
      bytes content = rebuild (bytes "aé…b") [⟨3, 3, "Y", 0⟩, ⟨3, 0, "high", 5⟩, ⟨1, 2, "X", 9⟩,
        ⟨3, 0, "low", -1⟩, ⟨3, 0, "er", -1⟩] := by
  have hvalid : ∀ r ∈ [⟨3, 3, "Y", 0⟩, ⟨3, 0, "high", 5⟩, ⟨1, 2, "X", 9⟩, ⟨3, 0, "low", -1⟩,
      ⟨3, 0, "er", -1⟩], Replacement.validate r "aé…b" = .ok () := by
    simp only [List.forall_mem_cons]
    exact ⟨rfl, rfl, rfl, rfl, rfl, by simp⟩
  obtain ⟨content, happly, hcontent, _⟩ := apply_eq_rebuild hvalid (by decide)
  exact ⟨content, happly, hcontent⟩

end LintRepair.Patch
