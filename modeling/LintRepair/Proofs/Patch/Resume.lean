import Mathlib.Data.List.Basic
import LintRepair.Proofs.Patch.Rebuild

/-!
# A patch in two parts

A patch checks its replacements against the source and then carries them out on a text that no
longer is the source.  This file stops it after any number of steps.  What it has at that moment is
itself a patched text, the one that the replacements carried out so far give; the others still fit
it, at the offsets that were meant for the source; and patching it with them gives what the whole
patch gives (`apply_resumes`).

## Strategy

* Both parts are lists of their own, with positions of their own, and a patch sorts by position in
  the end.  Leaving entries out keeps the order of the positions, so the order of application of a
  part is that of the whole with entries left out (`applicationOrder_restrict`).
* In reading order the source is cut into a front, which is still to come, and a back.  No
  replacement of the front reaches behind the start of one of the back, and `spliceAll?_reverse`
  says that the text up to there is as it was (`exists_eq_append_of_spliceAll?`).  So both ends of a
  span of the front are boundaries still.
-/

namespace LintRepair

namespace Text

/-- Boundaries are a matter of the characters in front of them. -/
theorem IsBoundary.of_shared_front {before after tail : List Char} {offset : Nat}
    (hboundary : IsBoundary (before ++ after) offset) (hle : offset ≤ byteCount before) :
    IsBoundary (before ++ tail) offset := by
  obtain ⟨first, second, hcut, hcount⟩ := isBoundary_iff.mp hboundary
  obtain ⟨middle, hbefore, _⟩ := exists_between hcut.symm (by omega)
  exact isBoundary_iff.mpr ⟨first, middle ++ tail, by rw [hbefore, List.append_assoc], hcount⟩

end Text

/-- A replacement that fits a text fits every other that is the same up to the end of the span. -/
theorem Replacement.validate_of_shared_front {r : Replacement} {source buffer : String}
    {before after tail : List Char} (hvalid : r.validate source = .ok ())
    (hsource : source.toList = before ++ after) (hbuffer : buffer.toList = before ++ tail)
    (hstop : r.stop ≤ Text.byteCount before) : r.validate buffer = .ok () := by
  rw [stop_eq_of_validate hvalid] at hstop
  obtain ⟨hword, _, hfirst, hsecond⟩ := validate_eq_ok_iff.mp hvalid
  rw [hsource] at hfirst hsecond
  refine validate_eq_ok_iff.mpr ⟨hword, ?_, ?_, ?_⟩
  · rw [← Text.byteCount_toList, hbuffer, Text.byteCount_append]
    omega
  · rw [hbuffer]
    exact hfirst.of_shared_front (by omega)
  · rw [hbuffer]
    exact hsecond.of_shared_front hstop

namespace Patch

open Text (bytes encode byteCount)

variable {source buffer : String} {replacements early : List Replacement} {count : Nat}

/-! ## Parts of a list -/

/-- The replacements of some entries, in the order of the list. -/
def restrict (replacements : List Replacement) (p : Entry → Bool) : List Replacement :=
  (replacements.zipIdx.filter p).map Prod.fst

theorem restrict_sublist (replacements : List Replacement) (p : Entry → Bool) :
    (restrict replacements p).Sublist replacements := by
  have hsublist := (List.filter_sublist (p := p) (l := replacements.zipIdx)).map Prod.fst
  rwa [List.zipIdx_map_fst] at hsublist

/-- Entries in the order of their positions may be numbered anew. -/
theorem position_le_iff {entries : List Entry}
    (hpositions : entries.Pairwise fun a b => a.2 < b.2) {a b : Entry × Nat}
    (ha : a ∈ entries.zipIdx) (hb : b ∈ entries.zipIdx) : a.1.2 ≤ b.1.2 ↔ a.2 ≤ b.2 := by
  have hlt : ∀ {a b : Entry × Nat}, a ∈ entries.zipIdx → b ∈ entries.zipIdx → a.2 < b.2 →
      a.1.2 < b.1.2 := by
    intro a b ha hb hab
    obtain ⟨hi, hai⟩ := List.getElem?_eq_some_iff.mp (List.mem_zipIdx_iff_getElem?.mp ha)
    obtain ⟨hj, hbj⟩ := List.getElem?_eq_some_iff.mp (List.mem_zipIdx_iff_getElem?.mp hb)
    have hpair := List.pairwise_iff_getElem.mp hpositions a.2 b.2 hi hj hab
    rwa [hai, hbj] at hpair
  rcases Nat.lt_trichotomy a.2 b.2 with hab | hab | hba
  · exact ⟨fun _ => Nat.le_of_lt hab, fun _ => Nat.le_of_lt (hlt ha hb hab)⟩
  · rw [List.mem_zipIdx_iff_getElem?, hab] at ha
    rw [List.mem_zipIdx_iff_getElem?, ha, Option.some.injEq] at hb
    rw [hab, hb]
    exact ⟨fun _ => Nat.le_refl _, fun _ => Nat.le_refl _⟩
  · have hold := hlt hb ha hba
    omega

/-- Positions may be counted anew as long as they keep their order. -/
theorem applicationOrder_map_fst {entries : List Entry}
    (hpositions : entries.Pairwise fun a b => a.2 < b.2) :
    applicationOrder (entries.map Prod.fst) =
      (entries.mergeSort fun a b => decide (Precedes a b)).map Prod.fst := by
  -- Sort the entries together with their new positions, once by the new and once by the old ones.
  have hnew : applicationOrder (entries.map Prod.fst) =
      ((entries.zipIdx.mergeSort fun a b => decide (Precedes a.1 b.1)).map
        (Prod.map Prod.fst id)).map Prod.fst := by
    rw [List.map_mergeSort (s := fun a b => decide (Precedes a b)), ← List.zipIdx_map]
    · rfl
    · intro a ha b hb
      rw [decide_eq_decide]
      unfold Precedes
      rw [Prod.map_fst, Prod.map_fst, Prod.map_snd, Prod.map_snd, id, id,
        position_le_iff hpositions hb ha]
  have hold : (entries.mergeSort fun a b => decide (Precedes a b)).map Prod.fst =
      ((entries.zipIdx.mergeSort fun a b => decide (Precedes a.1 b.1)).map Prod.fst).map
        Prod.fst := by
    rw [List.map_mergeSort (s := fun a b => decide (Precedes a b)), List.zipIdx_map_fst]
    intro a _ b _
    rfl
  rw [hnew, hold, List.map_map, List.map_map]
  rfl

/-- A part is carried out in the order of the whole. -/
theorem applicationOrder_restrict (replacements : List Replacement) (p : Entry → Bool) :
    applicationOrder (restrict replacements p) =
      ((applicationEntries replacements).filter p).map Prod.fst := by
  have hpositions : (replacements.zipIdx.filter p).Pairwise fun a b => a.2 < b.2 := by
    refine List.Pairwise.filter p ?_
    rw [← List.pairwise_map (f := Prod.snd) (R := (· < ·)), List.zipIdx_map_snd]
    exact List.pairwise_lt_range' 1
  have hperm := ((applicationEntries_perm replacements).filter p).symm
  rw [restrict, applicationOrder_map_fst hpositions]
  refine congrArg (List.map Prod.fst) (List.Perm.eq_of_pairwise ?_
    (pairwise_sort Precedes precedes_trans precedes_total _)
    ((applicationEntries_pairwise replacements).filter p) ((List.mergeSort_perm ..).trans hperm))
  intro a b ha hb hab hba
  rw [List.mem_mergeSort, List.mem_filter] at ha
  rw [← hperm.mem_iff, List.mem_filter] at hb
  exact eq_of_precedes ha.1 hb.1 hab hba

/-! ## The first steps and the others -/

/-- Whether an entry is among the first `count` that are carried out. -/
def isEarly (replacements : List Replacement) (count : Nat) (entry : Entry) : Bool :=
  decide (entry ∈ (applicationEntries replacements).take count)

/-- The first `count` replacements that are carried out, in the order of the list. -/
def carriedOut (replacements : List Replacement) (count : Nat) : List Replacement :=
  restrict replacements (isEarly replacements count)

/-- The replacements that are still to come after `count` steps, in the order of the list. -/
def stillToCome (replacements : List Replacement) (count : Nat) : List Replacement :=
  restrict replacements fun entry => !isEarly replacements count entry

theorem isEarly_of_mem_take {entry : Entry}
    (hentry : entry ∈ (applicationEntries replacements).take count) :
    isEarly replacements count entry = true :=
  decide_eq_true hentry

theorem isEarly_of_mem_drop {entry : Entry}
    (hentry : entry ∈ (applicationEntries replacements).drop count) :
    isEarly replacements count entry = false := by
  have hpositions := applicationEntries_positions replacements
  rw [← List.take_append_drop count (applicationEntries replacements),
    List.pairwise_append] at hpositions
  exact decide_eq_false fun hearly => hpositions.2.2 entry hearly entry hentry rfl

theorem filter_isEarly (replacements : List Replacement) (count : Nat) :
    (applicationEntries replacements).filter (isEarly replacements count) =
      (applicationEntries replacements).take count := by
  conv_lhs => rw [← List.take_append_drop count (applicationEntries replacements)]
  rw [List.filter_append, List.filter_eq_self.mpr fun _ hentry => isEarly_of_mem_take hentry,
    List.filter_eq_nil_iff.mpr fun _ hentry => by simp [isEarly_of_mem_drop hentry],
    List.append_nil]

theorem filter_not_isEarly (replacements : List Replacement) (count : Nat) :
    (applicationEntries replacements).filter (fun entry => !isEarly replacements count entry) =
      (applicationEntries replacements).drop count := by
  conv_lhs => rw [← List.take_append_drop count (applicationEntries replacements)]
  rw [List.filter_append,
    List.filter_eq_nil_iff.mpr fun _ hentry => by simp [isEarly_of_mem_take hentry],
    List.filter_eq_self.mpr fun _ hentry => by simp [isEarly_of_mem_drop hentry],
    List.nil_append]

theorem applicationOrder_carriedOut (replacements : List Replacement) (count : Nat) :
    applicationOrder (carriedOut replacements count) =
      (applicationOrder replacements).take count := by
  rw [carriedOut, applicationOrder_restrict, filter_isEarly, List.map_take]
  rfl

theorem applicationOrder_stillToCome (replacements : List Replacement) (count : Nat) :
    applicationOrder (stillToCome replacements count) =
      (applicationOrder replacements).drop count := by
  rw [stillToCome, applicationOrder_restrict, filter_not_isEarly, List.map_drop]
  rfl

theorem mem_carriedOut {r : Replacement} :
    r ∈ carriedOut replacements count ↔ r ∈ (applicationOrder replacements).take count := by
  rw [← applicationOrder_carriedOut, (applicationOrder_perm _).mem_iff]

theorem mem_stillToCome {r : Replacement} :
    r ∈ stillToCome replacements count ↔ r ∈ (applicationOrder replacements).drop count := by
  rw [← applicationOrder_stillToCome, (applicationOrder_perm _).mem_iff]

/-! ## The text in between -/

/-- What lies before all replacements that have been carried out is as it was. -/
theorem exists_eq_append_of_spliceAll? {chars before after : List Char}
    (hvalid : ∀ r ∈ early, r.validate source = .ok ())
    (horder : early.Pairwise fun earlier later => later.Before earlier)
    (hrun : spliceAll? early source.toList = some chars) (hcut : source.toList = before ++ after)
    (hbefore : ∀ r ∈ early, byteCount before ≤ r.start.toNat) :
    ∃ tail, chars = before ++ tail := by
  have hreverse : ∀ r ∈ early.reverse, r ∈ early := fun _ => List.mem_reverse.mp
  have hsize : byteCount before ≤ source.utf8ByteSize := by
    rw [← Text.byteCount_toList, hcut, Text.byteCount_append]
    exact Nat.le_add_right ..
  have hinOrder := inOrder_of_pairwise (fun r hr => hvalid r (hreverse r hr))
    (List.pairwise_reverse.mpr horder) (fun r hr => hbefore r (hreverse r hr)) hsize
  obtain ⟨tail, htail, _⟩ := spliceAll?_reverse hinOrder hcut rfl
  rw [List.reverse_reverse, hrun, Option.some.injEq] at htail
  exact ⟨tail, htail⟩

/-- The bytes before the first of the spans that have been exchanged are as they were. -/
theorem take_bytes_eq {offset : Nat} (hvalid : ∀ r ∈ early, r.validate source = .ok ())
    (horder : early.Pairwise fun earlier later => later.Before earlier)
    (hrun : spliceAll? early source.toList = some buffer.toList)
    (hoffset : ∀ r ∈ early, offset ≤ r.start.toNat) :
    (bytes buffer).take offset = (bytes source).take offset := by
  rcases List.eq_nil_or_concat' early with rfl | ⟨others, r, rfl⟩
  · rw [Text.bytes_eq_encode, Text.bytes_eq_encode, ← Option.some.inj hrun]
  · -- The span that was exchanged last is the first from the left, and it starts at a boundary.
    have hr : r ∈ others ++ [r] := List.mem_append_right _ List.mem_cons_self
    obtain ⟨_, _, hfirst, _⟩ := Replacement.validate_eq_ok_iff.mp (hvalid r hr)
    obtain ⟨before, after, hcut, hcount⟩ := Text.isBoundary_iff.mp hfirst
    have hstarts : ∀ s ∈ others ++ [r], byteCount before ≤ s.start.toNat := by
      intro s hs
      rw [hcount]
      rcases List.mem_append.mp hs with hs | hs
      · exact Nat.le_trans r.start_le_stop
          ((List.pairwise_append.mp horder).2.2 s hs r List.mem_cons_self)
      · obtain rfl := List.mem_singleton.mp hs
        exact Nat.le_refl _
    obtain ⟨tail, htail⟩ := exists_eq_append_of_spliceAll? hvalid horder hrun hcut hstarts
    have hlength : offset ≤ (encode before).length := by
      rw [Text.length_encode, hcount]
      exact hoffset r hr
    rw [Text.bytes_eq_encode, Text.bytes_eq_encode, htail, hcut, Text.encode_append,
      Text.encode_append, List.take_append_of_le_length hlength,
      List.take_append_of_le_length hlength]

/-- A replacement that is still to come fits the text as it is by then. -/
theorem validate_of_spliceAll? {r : Replacement} (hr : r.validate source = .ok ())
    (hvalid : ∀ s ∈ early, s.validate source = .ok ())
    (horder : early.Pairwise fun earlier later => later.Before earlier)
    (hrun : spliceAll? early source.toList = some buffer.toList)
    (hbefore : ∀ s ∈ early, r.Before s) : r.validate buffer = .ok () := by
  obtain ⟨_, _, _, hsecond⟩ := Replacement.validate_eq_ok_iff.mp hr
  rw [← Replacement.stop_eq_of_validate hr] at hsecond
  obtain ⟨before, after, hcut, hcount⟩ := Text.isBoundary_iff.mp hsecond
  obtain ⟨tail, htail⟩ := exists_eq_append_of_spliceAll? hvalid horder hrun hcut
    (fun s hs => hcount.symm ▸ hbefore s hs)
  exact Replacement.validate_of_shared_front hr hcut htail (Nat.le_of_eq hcount.symm)

/-- Replacements that fit and are disjoint may be carried out in two parts.  The first steps, in the
order of application, are the patch of the source with those replacements: it is carried out without
a failure, and its text is the source up to the first span that it exchanges.  The others fit that
text at the offsets that they have in the source, and patching it with them gives what the whole
patch gives. -/
theorem apply_resumes (hvalid : ∀ r ∈ replacements, r.validate source = .ok ())
    (hdisjoint : replacements.Pairwise fun a b => ¬ a.Overlaps b) (count : Nat) :
    ∃ buffer, apply source (carriedOut replacements count) = .ok buffer ∧
      spliceAll? ((applicationOrder replacements).take count) source.toList =
        some buffer.toList ∧
      (∀ offset, (∀ r ∈ carriedOut replacements count, offset ≤ r.start.toNat) →
        (bytes buffer).take offset = (bytes source).take offset) ∧
      (∀ r ∈ stillToCome replacements count, r.validate buffer = .ok ()) ∧
      ∃ content, apply buffer (stillToCome replacements count) = .ok content ∧
        apply source replacements = .ok content := by
  -- The first steps are the run of a patch of their own, and what is to come fits its result.
  have hcarriedOut : ∀ r ∈ carriedOut replacements count, r.validate source = .ok () :=
    fun r hr => hvalid r ((restrict_sublist ..).subset hr)
  obtain ⟨buffer, hbuffer, hrun, _⟩ :=
    exists_apply_eq_ok hcarriedOut (hdisjoint.sublist (restrict_sublist ..))
  rw [applicationOrder_carriedOut] at hrun
  have hearly : ∀ r ∈ (applicationOrder replacements).take count, r.validate source = .ok () :=
    fun r hr => hcarriedOut r (mem_carriedOut.mpr hr)
  have horder := (pairwise_before_iff replacements).mpr hdisjoint
  rw [← List.take_append_drop count (applicationOrder replacements),
    List.pairwise_append] at horder
  obtain ⟨horder, _, hacross⟩ := horder
  have hfits : ∀ r ∈ stillToCome replacements count, r.validate buffer = .ok () := by
    intro r hr
    exact validate_of_spliceAll? (hvalid r ((restrict_sublist ..).subset hr)) hearly horder hrun
      fun s hs => hacross s hs r (mem_stillToCome.mp hr)
  refine ⟨buffer, hbuffer, hrun, ?_, hfits, ?_⟩
  · intro offset hoffset
    exact take_bytes_eq hearly horder hrun fun r hr => hoffset r (mem_carriedOut.mpr hr)
  · -- Both runs together are the run of the whole order.
    obtain ⟨content, hcontent, hwhole, _⟩ := exists_apply_eq_ok hvalid hdisjoint
    obtain ⟨resumed, hresumed, hrest, _⟩ :=
      exists_apply_eq_ok hfits (hdisjoint.sublist (restrict_sublist ..))
    rw [applicationOrder_stillToCome] at hrest
    rw [← List.take_append_drop count (applicationOrder replacements), spliceAll?_append, hrun,
      Option.bind_some, hrest, Option.some.injEq, String.toList_inj] at hwhole
    exact ⟨content, hwhole ▸ hresumed, hcontent⟩

/-- Of three replacements that meet at one offset, the insertion and the range behind it are carried
out, and the range in front of it is still to come. -/
theorem apply_resumes_touching :
    ∃ buffer, apply "né…!" [⟨3, 0, "ü", 0⟩, ⟨3, 3, "...", 0⟩] = .ok buffer ∧
      (bytes buffer).take 3 = (bytes "né…!").take 3 ∧
      Replacement.validate ⟨1, 2, "e", 4⟩ buffer = .ok () ∧
      ∃ content, apply buffer [⟨1, 2, "e", 4⟩] = .ok content ∧
        apply "né…!" [⟨3, 0, "ü", 0⟩, ⟨1, 2, "e", 4⟩, ⟨3, 3, "...", 0⟩] = .ok content := by
  have hvalid : ∀ r ∈ [⟨3, 0, "ü", 0⟩, ⟨1, 2, "e", 4⟩, ⟨3, 3, "...", 0⟩],
      Replacement.validate r "né…!" = .ok () := by
    simp only [List.forall_mem_cons]
    exact ⟨rfl, rfl, rfl, by simp⟩
  have hentries : applicationEntries [⟨3, 0, "ü", 0⟩, ⟨1, 2, "e", 4⟩, ⟨3, 3, "...", 0⟩] =
      [(⟨3, 3, "...", 0⟩, 2), (⟨3, 0, "ü", 0⟩, 0), (⟨1, 2, "e", 4⟩, 1)] :=
    applicationEntries_eq_of_pairwise _ (by decide) (by decide)
  have hcarriedOut : carriedOut [⟨3, 0, "ü", 0⟩, ⟨1, 2, "e", 4⟩, ⟨3, 3, "...", 0⟩] 2 =
      [⟨3, 0, "ü", 0⟩, ⟨3, 3, "...", 0⟩] := by
    unfold carriedOut restrict isEarly
    rw [hentries]
    decide
  have hstillToCome : stillToCome [⟨3, 0, "ü", 0⟩, ⟨1, 2, "e", 4⟩, ⟨3, 3, "...", 0⟩] 2 =
      [⟨1, 2, "e", 4⟩] := by
    unfold stillToCome restrict isEarly
    rw [hentries]
    decide
  obtain ⟨buffer, hbuffer, _, hfront, hfits, hresumes⟩ := apply_resumes hvalid (by decide) 2
  rw [hcarriedOut] at hbuffer hfront
  rw [hstillToCome] at hfits hresumes
  exact ⟨buffer, hbuffer, hfront 3 (by decide), hfits _ List.mem_cons_self, hresumes⟩

end Patch

end LintRepair
