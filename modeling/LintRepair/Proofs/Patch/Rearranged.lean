import LintRepair.Proofs.Patch.Rebuild

/-!
# Rearranged replacements

The order of a list, and the priorities in it, are there for insertions that meet at one offset.
This file shows that they are there for nothing else: two lists of the same edits give the same
patch, or are refused with the same overlap, as soon as the insertions at every offset come in the
same order by priority and position.

## Strategy

* Whatever the priorities and positions are, the order of application puts the spans in one order,
  by end and start.  Neighbours are compared by their spans alone, so both lists are refused for
  the same first pair (`check_eq_of_sameEdits`).
* A list that is sorted by a key is determined by its fibres, the items of each key in their order
  (`eq_of_fibre_eq`).  When nothing overlaps, there is one edit at most on a span with bytes in it
  (`fibre_pairwise_false`), and on an empty span the fibre is `insertionsAt`, where the two lists
  agree by assumption (`fibre_of_empty`).  So the same edits are carried out in the same order.
-/

namespace LintRepair

namespace Replacement

/-- The edit alone, without its rank among insertions at one offset. -/
def unranked (r : Replacement) : Replacement :=
  { r with priority := 0 }

@[simp] theorem validate_unranked (r : Replacement) (source : String) :
    r.unranked.validate source = r.validate source := rfl

/-- On an offset that it fits, an edit of the empty span is an insertion. -/
theorem span_eq_iff_insertsAt {r : Replacement} {source : String} {offset : Nat}
    (hvalid : r.validate source = .ok ()) : r.span = ⟨offset, offset⟩ ↔ r.InsertsAt offset := by
  unfold span
  rw [Span.mk.injEq]
  constructor
  · rintro ⟨hstart, hstop⟩
    rw [← hstart]
    exact insertsAt_of_stop_eq hvalid (hstop.trans hstart.symm)
  · intro hinserts
    exact ⟨hinserts.2, hinserts.stop_eq⟩

/-- Two edits of one span overlap, unless the span is empty. -/
theorem overlaps_of_span_eq {a b : Replacement} (hspans : a.span = b.span)
    (hne : a.span.start ≠ a.span.stop) : a.Overlaps b := by
  have hstart : a.start.toNat = b.start.toNat := congrArg Span.start hspans
  have hstop : a.stop = b.stop := congrArg Span.stop hspans
  have hbytes : a.start.toNat ≠ a.stop := hne
  have hle := a.start_le_stop
  unfold Overlaps
  omega

end Replacement

namespace Patch

variable {source : String} {replacements rearranged : List Replacement}

/-! ## Sorted lists and their fibres -/

section Fibres

variable {α κ : Type} [DecidableEq κ] {key : α → κ} {a : α} {items : List α} {k : κ}

/-- The items of one key, in the order of the list. -/
def fibre (key : α → κ) (items : List α) (k : κ) : List α :=
  items.filter fun a => decide (key a = k)

theorem mem_fibre : a ∈ fibre key items k ↔ a ∈ items ∧ key a = k := by
  rw [fibre, List.mem_filter, decide_eq_true_eq]

theorem fibre_cons_of_eq (hkey : key a = k) :
    fibre key (a :: items) k = a :: fibre key items k :=
  List.filter_cons_of_pos (decide_eq_true hkey)

theorem fibre_cons_of_ne (hkey : key a ≠ k) : fibre key (a :: items) k = fibre key items k :=
  List.filter_cons_of_neg (by simpa using hkey)

theorem mem_iff_of_fibre_eq {first second : List α}
    (hfibres : ∀ k, fibre key first k = fibre key second k) : a ∈ first ↔ a ∈ second := by
  have hmem : ∀ items : List α, a ∈ items ↔ a ∈ fibre key items (key a) :=
    fun items => by rw [mem_fibre, and_iff_left rfl]
  rw [hmem first, hmem second, hfibres]

/-- A list that is sorted by a key is determined by its fibres. -/
theorem eq_of_fibre_eq {le : κ → κ → Prop} (hantisymm : ∀ {k l}, le k l → le l k → k = l)
    {first second : List α} (hfirst : first.Pairwise fun a b => le (key a) (key b))
    (hsecond : second.Pairwise fun a b => le (key a) (key b))
    (hfibres : ∀ k, fibre key first k = fibre key second k) : first = second := by
  induction first generalizing second with
  | nil =>
      symm
      rw [List.eq_nil_iff_forall_not_mem]
      intro a ha
      simpa using (mem_iff_of_fibre_eq hfibres).mpr ha
  | cons a rest ih =>
      cases second with
      | nil => simpa using (mem_iff_of_fibre_eq hfibres).mp (List.mem_cons_self (a := a))
      | cons b others =>
          rw [List.pairwise_cons] at hfirst hsecond
          -- Each head stands in the other list, so that their keys are the same; and then both are
          -- the first item of that key.
          have hkeys : key a = key b := by
            rcases List.mem_cons.mp ((mem_iff_of_fibre_eq hfibres).mp List.mem_cons_self) with
              rfl | ha
            · rfl
            rcases List.mem_cons.mp ((mem_iff_of_fibre_eq hfibres).mpr List.mem_cons_self) with
              rfl | hb
            · rfl
            exact hantisymm (hfirst.1 b hb) (hsecond.1 a ha)
          have hheads : a = b := by
            have hfibre := hfibres (key b)
            rw [fibre_cons_of_eq hkeys, fibre_cons_of_eq rfl] at hfibre
            exact (List.cons.inj hfibre).1
          subst hheads
          have hrest : ∀ k, fibre key rest k = fibre key others k := by
            intro k
            have hfibre := hfibres k
            by_cases hk : key a = k
            · rw [fibre_cons_of_eq hk, fibre_cons_of_eq hk] at hfibre
              exact (List.cons.inj hfibre).2
            · rwa [fibre_cons_of_ne hk, fibre_cons_of_ne hk] at hfibre
          rw [ih hfirst.2 hsecond.2 hrest]

end Fibres

/-! ## The same spans in the same order -/

/-- Whether a replacement of the span `a` is carried out before one of `b`, or both are one span. -/
def SpanPrecedes (a b : Span) : Prop :=
  b.stop < a.stop ∨ b.stop = a.stop ∧ b.start ≤ a.start

theorem spanPrecedes_antisymm {a b : Span} (hab : SpanPrecedes a b) (hba : SpanPrecedes b a) :
    a = b := by
  obtain ⟨aStart, aStop⟩ := a
  obtain ⟨bStart, bStop⟩ := b
  simp only [SpanPrecedes] at hab hba
  rw [Span.mk.injEq]
  omega

theorem spanPrecedes_of_precedes {a b : Entry} (hab : Precedes a b) :
    SpanPrecedes a.1.span b.1.span := by
  show b.1.stop < a.1.stop ∨ b.1.stop = a.1.stop ∧ b.1.start.toNat ≤ a.1.start.toNat
  unfold Precedes at hab
  omega

theorem applicationOrder_pairwise_span (replacements : List Replacement) :
    ((applicationOrder replacements).map Replacement.unranked).Pairwise fun a b =>
      SpanPrecedes a.span b.span := by
  rw [applicationOrder_eq_map, List.map_map, List.pairwise_map]
  exact (applicationEntries_pairwise replacements).imp spanPrecedes_of_precedes

/-- Neighbours are compared by their spans alone. -/
theorem firstCrossing_congr {first second : List Replacement}
    (hspans : first.map Replacement.span = second.map Replacement.span) :
    (firstCrossing first).map (Prod.map Replacement.span Replacement.span) =
      (firstCrossing second).map (Prod.map Replacement.span Replacement.span) := by
  induction first generalizing second with
  | nil =>
      rw [List.map_nil, eq_comm, List.map_eq_nil_iff] at hspans
      rw [hspans]
  | cons earlier rest ih =>
      obtain ⟨earlier', rest', rfl, hearlier, hrest⟩ := List.map_eq_cons_iff.mp hspans.symm
      cases rest with
      | nil =>
          rw [List.map_nil, List.map_eq_nil_iff] at hrest
          rw [hrest]
          rfl
      | cons later rest =>
          -- Whether the first two cross is decided by one start and one stop.
          obtain ⟨later', rest', rfl, hlater, hrest'⟩ := List.map_eq_cons_iff.mp hrest
          have hstart : earlier'.start.toNat = earlier.start.toNat :=
            congrArg Span.start hearlier
          have hstop : later'.stop = later.stop := congrArg Span.stop hlater
          rw [firstCrossing, firstCrossing, hstart, hstop]
          split
          · simp [Prod.map, hearlier, hlater]
          · exact ih hrest.symm

/-! ## The same edits -/

/-- Both lists hold the same edits, in any order and with any priorities. -/
def SameEdits (first second : List Replacement) : Prop :=
  (first.map Replacement.unranked).Perm (second.map Replacement.unranked)

instance (first second : List Replacement) : Decidable (SameEdits first second) :=
  inferInstanceAs (Decidable (List.Perm _ _))

theorem pairwise_unranked_iff :
    ((replacements.map Replacement.unranked).Pairwise fun a b => ¬ a.Overlaps b) ↔
      replacements.Pairwise fun a b => ¬ a.Overlaps b :=
  List.pairwise_map

namespace SameEdits

theorem perm_span (h : SameEdits replacements rearranged) :
    (replacements.map Replacement.span).Perm (rearranged.map Replacement.span) := by
  have hperm := List.Perm.map Replacement.span h
  rwa [List.map_map, List.map_map] at hperm

theorem forall_validate (h : SameEdits replacements rearranged)
    (hvalid : ∀ r ∈ replacements, r.validate source = .ok ()) :
    ∀ r ∈ rearranged, r.validate source = .ok () := by
  intro r hr
  obtain ⟨s, hs, hsame⟩ := List.mem_map.mp
    ((List.Perm.mem_iff h).mpr (List.mem_map_of_mem (f := Replacement.unranked) hr))
  rw [← Replacement.validate_unranked, ← hsame, Replacement.validate_unranked]
  exact hvalid s hs

theorem pairwise_not_overlaps (h : SameEdits replacements rearranged)
    (hdisjoint : replacements.Pairwise fun a b => ¬ a.Overlaps b) :
    rearranged.Pairwise fun a b => ¬ a.Overlaps b := by
  rw [← pairwise_unranked_iff] at hdisjoint ⊢
  exact (Replacement.pairwise_not_overlaps_iff h).mp hdisjoint

theorem sameEdits_applicationOrder (h : SameEdits replacements rearranged) :
    SameEdits (applicationOrder replacements) (applicationOrder rearranged) :=
  ((applicationOrder_perm replacements).map _).trans
    (List.Perm.trans h ((applicationOrder_perm rearranged).map _).symm)

/-- The spans are exchanged in the same order, whatever the priorities and positions are. -/
theorem map_span_applicationOrder_eq (h : SameEdits replacements rearranged) :
    (applicationOrder replacements).map Replacement.span =
      (applicationOrder rearranged).map Replacement.span := by
  have hspans : ∀ items : List Replacement,
      ((applicationOrder items).map Replacement.span).Pairwise SpanPrecedes := by
    intro items
    have horder := applicationOrder_pairwise_span items
    rw [List.pairwise_map] at horder ⊢
    exact horder
  exact h.sameEdits_applicationOrder.perm_span.eq_of_pairwise (fun _ _ _ _ => spanPrecedes_antisymm)
    (hspans replacements) (hspans rearranged)

end SameEdits

/-- The same edits are refused for the same reason. -/
theorem check_eq_of_sameEdits (hvalid : ∀ r ∈ replacements, r.validate source = .ok ())
    (hsame : SameEdits replacements rearranged) :
    check source replacements = check source rearranged := by
  have hcrossing := firstCrossing_congr hsame.map_span_applicationOrder_eq
  rw [check_of_validate hvalid, check_of_validate (hsame.forall_validate hvalid)]
  cases hfirst : firstCrossing (applicationOrder replacements) with
  | none =>
      rw [hfirst, Option.map_none, eq_comm, Option.map_eq_none_iff] at hcrossing
      rw [hcrossing]
  | some pair =>
      rw [hfirst, Option.map_some, eq_comm, Option.map_eq_some_iff] at hcrossing
      obtain ⟨⟨first, second⟩, hsecond, hspans⟩ := hcrossing
      obtain ⟨hleft, hright⟩ := Prod.mk.inj hspans
      rw [hsecond]
      show Except.error (PatchError.overlap pair.1.span pair.2.span) =
        .error (.overlap first.span second.span)
      rw [hleft, hright]

/-! ## The same text -/

/-- On an empty span stand the insertions at its offset, the last of them first. -/
theorem fibre_of_empty (hvalid : ∀ r ∈ replacements, r.validate source = .ok ())
    (hdisjoint : replacements.Pairwise fun a b => ¬ a.Overlaps b) (offset : Nat) :
    fibre Replacement.span ((applicationOrder replacements).map Replacement.unranked)
        ⟨offset, offset⟩ =
      ((insertionsAt replacements offset).map Replacement.unranked).reverse := by
  rw [applicationOrder_eq_reverse hdisjoint, ← filter_readingOrder, ← List.map_reverse,
    ← List.filter_reverse, fibre, List.filter_map]
  refine congrArg (List.map Replacement.unranked) (List.filter_congr fun r hr => ?_)
  exact decide_eq_decide.mpr
    (Replacement.span_eq_iff_insertsAt (hvalid r (mem_readingOrder.mp (List.mem_reverse.mp hr))))

/-- On a span with bytes in it there are no two of some disjoint edits. -/
theorem fibre_pairwise_false {span : Span} (hspan : span.start ≠ span.stop)
    (hdisjoint : replacements.Pairwise fun a b => ¬ a.Overlaps b) :
    (fibre Replacement.span ((applicationOrder replacements).map Replacement.unranked)
      span).Pairwise fun _ _ => False := by
  have horder : ((applicationOrder replacements).map Replacement.unranked).Pairwise
      fun a b => ¬ a.Overlaps b := by
    rwa [pairwise_unranked_iff,
      Replacement.pairwise_not_overlaps_iff (applicationOrder_perm replacements)]
  refine (horder.filter fun r => decide (r.span = span)).imp_of_mem fun {a b} ha hb hnot => ?_
  have haspan : a.span = span := (mem_fibre.mp ha).2
  have hbspan : b.span = span := (mem_fibre.mp hb).2
  exact hnot (Replacement.overlaps_of_span_eq (haspan.trans hbspan.symm) (haspan ▸ hspan))

/-- Disjoint edits are carried out in the same order when the insertions at every offset come in the
same order. -/
theorem map_unranked_applicationOrder_eq
    (hvalid : ∀ r ∈ replacements, r.validate source = .ok ())
    (hdisjoint : replacements.Pairwise fun a b => ¬ a.Overlaps b)
    (hsame : SameEdits replacements rearranged)
    (hinsertions : ∀ offset, (insertionsAt replacements offset).map Replacement.unranked =
      (insertionsAt rearranged offset).map Replacement.unranked) :
    (applicationOrder replacements).map Replacement.unranked =
      (applicationOrder rearranged).map Replacement.unranked := by
  have hrearranged := hsame.pairwise_not_overlaps hdisjoint
  refine eq_of_fibre_eq spanPrecedes_antisymm (applicationOrder_pairwise_span replacements)
    (applicationOrder_pairwise_span rearranged) ?_
  rintro ⟨start, stop⟩
  by_cases hspan : start = stop
  · subst hspan
    rw [fibre_of_empty hvalid hdisjoint, fibre_of_empty (hsame.forall_validate hvalid) hrearranged,
      hinsertions]
  · -- Two lists with the same items, and with no two of them.
    have hperm := hsame.sameEdits_applicationOrder.filter fun r => decide (r.span = ⟨start, stop⟩)
    exact hperm.eq_of_pairwise (fun _ _ _ _ hfalse _ => hfalse.elim)
      (fibre_pairwise_false hspan hdisjoint) (fibre_pairwise_false hspan hrearranged)

theorem spliceAll_map_unranked (order : List Replacement) (chars : List Char) :
    spliceAll (order.map Replacement.unranked) chars = spliceAll order chars := by
  unfold spliceAll
  rw [List.foldl_map]
  rfl

/-- Two lists of the same edits, in any order and with any priorities, give the same text or are
refused with the same overlap, provided that the insertions at every offset come in the same order
by priority and position. -/
theorem apply_eq_of_sameEdits (hvalid : ∀ r ∈ replacements, r.validate source = .ok ())
    (hsame : SameEdits replacements rearranged)
    (hinsertions : ∀ offset, (insertionsAt replacements offset).map Replacement.unranked =
      (insertionsAt rearranged offset).map Replacement.unranked) :
    (∃ content, apply source replacements = .ok content ∧ apply source rearranged = .ok content) ∨
      ∃ first second, apply source replacements = .error (.overlap first second) ∧
        apply source rearranged = .error (.overlap first second) := by
  have hcheck := check_eq_of_sameEdits hvalid hsame
  -- Refused lists name the same spans; in accepted ones edits of one span have their order from
  -- `hinsertions`, and edits of different spans from the spans.
  by_cases hoverlap : HasOverlap replacements
  · obtain ⟨first, second, hrefused⟩ := (check_eq_overlap_iff hvalid).mpr hoverlap
    exact Or.inr ⟨first, second, apply_eq_error_iff.mpr hrefused,
      apply_eq_error_iff.mpr (hcheck ▸ hrefused)⟩
  · have hdisjoint := not_hasOverlap_iff.mp hoverlap
    have haccepted : check source replacements = .ok () := check_eq_ok_iff.mpr ⟨hvalid, hdisjoint⟩
    refine Or.inl ⟨_, apply_of_check haccepted, ?_⟩
    rw [apply_of_check (hcheck ▸ haccepted), ← spliceAll_map_unranked,
      ← map_unranked_applicationOrder_eq hvalid hdisjoint hsame hinsertions,
      spliceAll_map_unranked]

/-- Two insertions between ranges that touch; the other list names everything in another order, and
the insertions by position alone. -/
theorem apply_eq_of_sameEdits_touching :
    ∃ content,
      apply "aé…b" [⟨3, 3, "Y", 0⟩, ⟨3, 0, "high", 5⟩, ⟨1, 2, "X", 9⟩, ⟨3, 0, "low", -1⟩] =
        .ok content ∧
      apply "aé…b" [⟨3, 0, "low", 2⟩, ⟨1, 2, "X", 0⟩, ⟨3, 0, "high", 2⟩, ⟨3, 3, "Y", -4⟩] =
        .ok content := by
  have hvalid : ∀ r ∈ [⟨3, 3, "Y", 0⟩, ⟨3, 0, "high", 5⟩, ⟨1, 2, "X", 9⟩, ⟨3, 0, "low", -1⟩],
      Replacement.validate r "aé…b" = .ok () := by
    simp only [List.forall_mem_cons]
    exact ⟨rfl, rfl, rfl, rfl, by simp⟩
  have hinsertions : ∀ offset,
      (insertionsAt [⟨3, 3, "Y", 0⟩, ⟨3, 0, "high", 5⟩, ⟨1, 2, "X", 9⟩, ⟨3, 0, "low", -1⟩]
        offset).map Replacement.unranked =
      (insertionsAt [⟨3, 0, "low", 2⟩, ⟨1, 2, "X", 0⟩, ⟨3, 0, "high", 2⟩, ⟨3, 3, "Y", -4⟩]
        offset).map Replacement.unranked := by
    intro offset
    by_cases hoffset : offset = 3
    · subst hoffset
      have hfirst : insertionsAt [⟨3, 3, "Y", 0⟩, ⟨3, 0, "high", 5⟩, ⟨1, 2, "X", 9⟩,
          ⟨3, 0, "low", -1⟩] 3 = [⟨3, 0, "low", -1⟩, ⟨3, 0, "high", 5⟩] :=
        insertionsAt_eq_of_pairwise [(⟨3, 0, "low", -1⟩, 3), (⟨3, 0, "high", 5⟩, 1)] (by decide)
          (by decide)
      have hsecond : insertionsAt [⟨3, 0, "low", 2⟩, ⟨1, 2, "X", 0⟩, ⟨3, 0, "high", 2⟩,
          ⟨3, 3, "Y", -4⟩] 3 = [⟨3, 0, "low", 2⟩, ⟨3, 0, "high", 2⟩] :=
        insertionsAt_eq_of_pairwise [(⟨3, 0, "low", 2⟩, 0), (⟨3, 0, "high", 2⟩, 2)] (by decide)
          (by decide)
      rw [hfirst, hsecond]
      rfl
    · rw [insertionsAt_eq_nil, insertionsAt_eq_nil]
      all_goals simpa [Replacement.InsertsAt] using Ne.symm hoffset
  obtain ⟨content, happly, _⟩ := exists_apply_eq_ok hvalid (by decide)
  rcases apply_eq_of_sameEdits hvalid (by decide) hinsertions with
    hboth | ⟨_, _, hrefused, _⟩
  · exact hboth
  · rw [happly] at hrefused
    cases hrefused

end Patch

end LintRepair
