import Mathlib.Tactic.Common
import LintRepair.Proofs.Patch.Check

/-!
# Replacements from left to right

The reading order of a list sorts by start, end, priority and position, each ascending.  The order
of application uses other keys, end before start, and the two disagree on overlapping replacements.
On disjoint ones each is the other reversed (`applicationOrder_eq_reverse`): of two disjoint
replacements that start together one is an insertion, and so is one of two that end together.  So
they stand one behind the other: `InOrder` says it for a walk from the left, which is what
inductions along the reading order go by.

In reading order everything that starts before an offset comes first, then come the insertions at
the offset by priority and position, and then all the rest: that is `SplitAt`, and `exists_splitAt`
says that every offset splits the order so.
-/

namespace LintRepair

/-- `r` removes nothing and puts its text in at `offset`. -/
def Replacement.InsertsAt (r : Replacement) (offset : Nat) : Prop :=
  r.length = 0 ∧ r.start.toNat = offset

instance (r : Replacement) (offset : Nat) : Decidable (r.InsertsAt offset) :=
  inferInstanceAs (Decidable (_ ∧ _))

theorem Replacement.InsertsAt.stop_eq {r : Replacement} {offset : Nat} (h : r.InsertsAt offset) :
    r.stop = offset := by
  have hword : r.start.toNat < 2 ^ 64 := r.start.toNat_lt
  have hlength : r.length.toNat = 0 := by rw [h.1]; rfl
  have hstart := h.2
  unfold stop maxOffset
  omega

/-- A replacement that fits and ends where it starts is an insertion. -/
theorem Replacement.insertsAt_of_stop_eq {r : Replacement} {source : String}
    (hvalid : r.validate source = .ok ()) (hstop : r.stop = r.start.toNat) :
    r.InsertsAt r.start.toNat := by
  rw [stop_eq_of_validate hvalid] at hstop
  exact ⟨UInt64.toNat_inj.mp (by rw [UInt64.toNat_zero]; omega), rfl⟩

namespace Patch

variable {source : String} {replacements : List Replacement} {a b c : Entry} {offset : Nat}

/-! ## The order of two entries -/

/-- Whether `a` stands before `b` from left to right, or both are the same entry: by start, end,
priority and position, each ascending. -/
def Leads (a b : Entry) : Prop :=
  a.1.start.toNat < b.1.start.toNat ∨
    a.1.start.toNat = b.1.start.toNat ∧ (a.1.stop < b.1.stop ∨
      a.1.stop = b.1.stop ∧ (a.1.priority.toInt < b.1.priority.toInt ∨
        a.1.priority.toInt = b.1.priority.toInt ∧ a.2 ≤ b.2))

instance : DecidableRel Leads := fun a b => by
  unfold Leads
  infer_instance

theorem leads_trans (hab : Leads a b) (hbc : Leads b c) : Leads a c := by
  unfold Leads at *
  omega

theorem leads_total (a b : Entry) : Leads a b ∨ Leads b a := by
  unfold Leads
  omega

theorem precedes_of_leads (hdisjoint : ¬ a.1.Overlaps b.1) (hab : Leads a b) : Precedes b a := by
  have ha := a.1.start_le_stop
  have hb := b.1.start_le_stop
  unfold Replacement.Overlaps at hdisjoint
  unfold Leads at hab
  unfold Precedes
  omega

/-! ## The sorted entries -/

/-- The entries of a list from left to right. -/
def readingEntries (replacements : List Replacement) : List Entry :=
  replacements.zipIdx.mergeSort fun a b => decide (Leads a b)

/-- The replacements from left to right, in the order of start, end, priority and position. -/
def readingOrder (replacements : List Replacement) : List Replacement :=
  (readingEntries replacements).map Prod.fst

theorem readingEntries_perm (replacements : List Replacement) :
    (readingEntries replacements).Perm replacements.zipIdx :=
  List.mergeSort_perm ..

theorem readingEntries_pairwise (replacements : List Replacement) :
    (readingEntries replacements).Pairwise Leads :=
  pairwise_sort Leads leads_trans leads_total _

theorem readingOrder_perm (replacements : List Replacement) :
    (readingOrder replacements).Perm replacements := by
  have hperm := (readingEntries_perm replacements).map Prod.fst
  rwa [List.zipIdx_map_fst] at hperm

theorem mem_readingOrder {r : Replacement} : r ∈ readingOrder replacements ↔ r ∈ replacements :=
  (readingOrder_perm replacements).mem_iff

theorem fst_mem_of_mem_readingEntries (ha : a ∈ readingEntries replacements) :
    a.1 ∈ replacements :=
  mem_readingOrder.mp (List.mem_map_of_mem ha)

/-- Disjoint replacements are carried out from right to left. -/
theorem applicationOrder_eq_reverse
    (hdisjoint : replacements.Pairwise fun a b => ¬ a.Overlaps b) :
    applicationOrder replacements = (readingOrder replacements).reverse := by
  have hreading : (readingEntries replacements).Pairwise fun a b => ¬ a.1.Overlaps b.1 := by
    have hpairs :=
      (Replacement.pairwise_not_overlaps_iff (readingOrder_perm replacements)).mpr hdisjoint
    rwa [readingOrder, List.pairwise_map] at hpairs
  have hbackwards : (readingEntries replacements).reverse.Pairwise Precedes := by
    rw [List.pairwise_reverse]
    exact hreading.imp₂ (fun _ _ hnot hleads => precedes_of_leads hnot hleads)
      (readingEntries_pairwise replacements)
  have hsame : applicationEntries replacements = (readingEntries replacements).reverse :=
    applicationEntries_eq_of_pairwise _ hbackwards
      ((List.reverse_perm _).trans (readingEntries_perm replacements))
  rw [applicationOrder_eq_map, hsame, readingOrder, List.map_reverse]

theorem readingOrder_pairwise (hdisjoint : replacements.Pairwise fun a b => ¬ a.Overlaps b) :
    (readingOrder replacements).Pairwise Replacement.Before := by
  have hbefore := (pairwise_before_iff replacements).mpr hdisjoint
  rwa [applicationOrder_eq_reverse hdisjoint, List.pairwise_reverse] at hbefore

/-- Replacements that fit the source, none of them before `start` and none reaching into the
next. -/
inductive InOrder (source : String) : Nat → List Replacement → Prop
  | nil {start : Nat} (hsize : start ≤ source.utf8ByteSize) : InOrder source start []
  | cons {start : Nat} {r : Replacement} {rest : List Replacement}
      (hstart : start ≤ r.start.toNat) (hvalid : r.validate source = .ok ())
      (hrest : InOrder source r.stop rest) : InOrder source start (r :: rest)

theorem inOrder_of_pairwise {order : List Replacement} {start : Nat}
    (hvalid : ∀ r ∈ order, r.validate source = .ok ())
    (horder : order.Pairwise Replacement.Before)
    (hstart : ∀ r ∈ order, start ≤ r.start.toNat) (hsize : start ≤ source.utf8ByteSize) :
    InOrder source start order := by
  induction order generalizing start with
  | nil => exact .nil hsize
  | cons r rest ih =>
      rw [List.pairwise_cons] at horder
      have hr : r.validate source = .ok () := hvalid r List.mem_cons_self
      have hstop : r.stop ≤ source.utf8ByteSize := by
        rw [Replacement.stop_eq_of_validate hr]
        exact (Replacement.validate_eq_ok_iff.mp hr).2.1
      exact .cons (hstart r List.mem_cons_self) hr
        (ih (fun s hs => hvalid s (List.mem_cons_of_mem _ hs)) horder.2 horder.1 hstop)

theorem inOrder_readingOrder (hvalid : ∀ r ∈ replacements, r.validate source = .ok ())
    (hdisjoint : replacements.Pairwise fun a b => ¬ a.Overlaps b) :
    InOrder source 0 (readingOrder replacements) :=
  inOrder_of_pairwise (fun r hr => hvalid r (mem_readingOrder.mp hr))
    (readingOrder_pairwise hdisjoint) (fun _ _ => Nat.zero_le _) (Nat.zero_le _)

/-! ## Around an offset -/

/-- Whether `a` stands before `b` among insertions at one offset, or both are the same entry: by
priority and position, both ascending. -/
def YieldsTo (a b : Entry) : Prop :=
  a.1.priority.toInt < b.1.priority.toInt ∨
    a.1.priority.toInt = b.1.priority.toInt ∧ a.2 ≤ b.2

instance : DecidableRel YieldsTo := fun a b => by
  unfold YieldsTo
  infer_instance

theorem yieldsTo_trans (hab : YieldsTo a b) (hbc : YieldsTo b c) : YieldsTo a c := by
  unfold YieldsTo at *
  omega

theorem yieldsTo_total (a b : Entry) : YieldsTo a b ∨ YieldsTo b a := by
  unfold YieldsTo
  omega

theorem position_eq_of_yieldsTo (hab : YieldsTo a b) (hba : YieldsTo b a) : a.2 = b.2 := by
  unfold YieldsTo at *
  omega

/-- The insertions at an offset, those of lower priority first and those of one priority in the
order of the list. -/
def insertionsAt (replacements : List Replacement) (offset : Nat) : List Replacement :=
  ((replacements.zipIdx.filter fun entry => decide (entry.1.InsertsAt offset)).mergeSort
    fun a b => decide (YieldsTo a b)).map Prod.fst

theorem mem_insertionsAt {r : Replacement} :
    r ∈ insertionsAt replacements offset ↔ r ∈ replacements ∧ r.InsertsAt offset := by
  unfold insertionsAt
  rw [List.mem_map]
  constructor
  · rintro ⟨entry, hentry, rfl⟩
    rw [List.mem_mergeSort, List.mem_filter, decide_eq_true_eq] at hentry
    exact ⟨List.fst_mem_of_mem_zipIdx hentry.1, hentry.2⟩
  · rintro ⟨hr, hinserts⟩
    obtain ⟨i, hi⟩ := List.mem_iff_getElem?.mp hr
    refine ⟨(r, i), ?_, rfl⟩
    rw [List.mem_mergeSort, List.mem_filter, decide_eq_true_eq]
    exact ⟨List.mk_mem_zipIdx_iff_getElem?.mpr hi, hinserts⟩

theorem insertionsAt_eq_nil (hnone : ∀ r ∈ replacements, ¬ r.InsertsAt offset) :
    insertionsAt replacements offset = [] :=
  List.eq_nil_iff_forall_not_mem.mpr fun r hr =>
    hnone r (mem_insertionsAt.mp hr).1 (mem_insertionsAt.mp hr).2

theorem yieldsTo_of_leads (ha : a.1.InsertsAt offset) (hb : b.1.InsertsAt offset)
    (hab : Leads a b) : YieldsTo a b := by
  have hstarts : a.1.start.toNat = b.1.start.toNat := ha.2.trans hb.2.symm
  have hstops : a.1.stop = b.1.stop := ha.stop_eq.trans hb.stop_eq.symm
  unfold Leads at hab
  unfold YieldsTo
  omega

/-- In a list that has the items with a property in front, they make up its first part. -/
theorem filter_append_filter_not {α : Type} {items : List α} {p : α → Bool}
    (hfront : items.Pairwise fun a b => p b = true → p a = true) :
    items.filter p ++ items.filter (fun item => !p item) = items := by
  induction items with
  | nil => rfl
  | cons item rest ih =>
      rw [List.pairwise_cons] at hfront
      cases hp : p item with
      | true => simpa [hp] using ih hfront.2
      | false =>
          -- From here on no item has the property.
          have hnone : ∀ other ∈ rest, p other = false := by
            intro other hother
            by_contra h
            rw [Bool.not_eq_false] at h
            rw [hfront.1 other hother h] at hp
            cases hp
          have hempty : rest.filter p = [] := by
            rw [List.filter_eq_nil_iff]
            intro other hother
            rw [hnone other hother]
            exact Bool.false_ne_true
          have hall : rest.filter (fun item => !p item) = rest := by
            rw [List.filter_eq_self]
            intro other hother
            rw [hnone other hother]
            rfl
          simp [hp, hempty, hall]

theorem insertionsAt_eq_of_pairwise (entries : List Entry) (hsorted : entries.Pairwise YieldsTo)
    (hperm : entries.Perm
      (replacements.zipIdx.filter fun entry => decide (entry.1.InsertsAt offset))) :
    insertionsAt replacements offset = entries.map Prod.fst := by
  refine congrArg (List.map Prod.fst) (List.Perm.eq_of_pairwise ?_
    (pairwise_sort YieldsTo yieldsTo_trans yieldsTo_total _) hsorted
    ((List.mergeSort_perm ..).trans hperm.symm))
  intro a b ha hb hab hba
  rw [List.mem_mergeSort, List.mem_filter] at ha
  rw [hperm.mem_iff, List.mem_filter] at hb
  exact eq_of_position_eq ha.1 hb.1 (position_eq_of_yieldsTo hab hba)

theorem insertionsAt_eq_map (replacements : List Replacement) (offset : Nat) :
    insertionsAt replacements offset =
      ((readingEntries replacements).filter fun entry =>
        decide (entry.1.InsertsAt offset)).map Prod.fst := by
  refine insertionsAt_eq_of_pairwise _ ?_ ((readingEntries_perm replacements).filter _)
  refine ((readingEntries_pairwise replacements).filter _).imp_of_mem ?_
  intro a b ha hb hleads
  rw [List.mem_filter, decide_eq_true_eq] at ha hb
  exact yieldsTo_of_leads ha.2 hb.2 hleads

/-- From left to right, insertions at one offset come in their own order. -/
theorem filter_readingOrder (replacements : List Replacement) (offset : Nat) :
    (readingOrder replacements).filter (fun r => decide (r.InsertsAt offset)) =
      insertionsAt replacements offset := by
  rw [insertionsAt_eq_map, readingOrder, List.filter_map]
  rfl

theorem startsBefore_of_leads (hab : Leads a b) (hb : b.1.start.toNat < offset) :
    a.1.start.toNat < offset := by
  unfold Leads at hab
  omega

/-- Of what does not start before an offset, only other insertions stand in front of one there. -/
theorem insertsAt_of_leads (ha : a.1.validate source = .ok ()) (hab : Leads a b)
    (hstart : offset ≤ a.1.start.toNat) (hb : b.1.InsertsAt offset) : a.1.InsertsAt offset := by
  have hle := a.1.start_le_stop
  have hbstop := hb.stop_eq
  have hbstart := hb.2
  unfold Leads at hab
  have haoffset : a.1.start.toNat = offset := by omega
  have hastop : a.1.stop = a.1.start.toNat := by omega
  rw [← haoffset]
  exact Replacement.insertsAt_of_stop_eq ha hastop

/-- The reading order around an offset: what starts before it, the insertions there, the rest. -/
structure SplitAt (replacements : List Replacement) (offset : Nat)
    (earlier later : List Replacement) : Prop where
  order : readingOrder replacements = earlier ++ (insertionsAt replacements offset ++ later)
  starts_before : ∀ r ∈ earlier, r.start.toNat < offset
  starts_behind : ∀ r ∈ later, offset ≤ r.start.toNat
  not_insertsAt : ∀ r ∈ later, ¬ r.InsertsAt offset

theorem exists_splitAt (hvalid : ∀ r ∈ replacements, r.validate source = .ok ()) (offset : Nat) :
    ∃ earlier later, SplitAt replacements offset earlier later := by
  let entries := readingEntries replacements
  let starts : Entry → Bool := fun entry => decide (entry.1.start.toNat < offset)
  let inserts : Entry → Bool := fun entry => decide (entry.1.InsertsAt offset)
  let rest := entries.filter fun entry => !starts entry
  have hsorted : entries.Pairwise Leads := readingEntries_pairwise replacements
  have hrest : ∀ entry ∈ rest, entry.1 ∈ replacements ∧ offset ≤ entry.1.start.toNat := by
    intro entry hentry
    obtain ⟨hmem, hnot⟩ := List.mem_filter.mp hentry
    exact ⟨fst_mem_of_mem_readingEntries hmem, by simpa [starts] using hnot⟩
  -- The entries fall apart at the offset, and what is behind it where the insertions end.
  have hfront : entries.filter starts ++ rest = entries := by
    refine filter_append_filter_not (hsorted.imp ?_)
    intro a b hleads hb
    exact decide_eq_true (startsBefore_of_leads hleads (of_decide_eq_true hb))
  have hmiddle : rest.filter inserts ++ rest.filter (fun entry => !inserts entry) = rest := by
    refine filter_append_filter_not ((hsorted.filter _).imp_of_mem ?_)
    intro a b ha _ hleads hb
    obtain ⟨hmem, hstart⟩ := hrest a ha
    exact decide_eq_true (insertsAt_of_leads (hvalid _ hmem) hleads hstart (of_decide_eq_true hb))
  have hhere : (rest.filter inserts).map Prod.fst = insertionsAt replacements offset := by
    rw [insertionsAt_eq_map, List.filter_filter]
    congr 1
    refine List.filter_congr fun entry _ => ?_
    simp only [inserts, starts, Bool.and_eq_left_iff_imp, decide_eq_true_eq, Bool.not_eq_true',
      decide_eq_false_iff_not]
    intro h
    rw [h.2]
    exact Nat.lt_irrefl offset
  refine ⟨(entries.filter starts).map Prod.fst,
    (rest.filter fun entry => !inserts entry).map Prod.fst, ?_, ?_, ?_, ?_⟩
  · rw [← hhere, ← List.map_append, ← List.map_append, hmiddle, hfront]
    rfl
  · simp [starts]
  · intro r hr
    obtain ⟨entry, hentry, rfl⟩ := List.mem_map.mp hr
    exact (hrest entry (List.mem_filter.mp hentry).1).2
  · intro r hr
    obtain ⟨entry, hentry, rfl⟩ := List.mem_map.mp hr
    simpa [inserts] using (List.mem_filter.mp hentry).2

namespace SplitAt

variable {earlier later : List Replacement} {r : Replacement}

theorem mem_iff (h : SplitAt replacements offset earlier later) :
    r ∈ replacements ↔ r ∈ earlier ∨ r ∈ insertionsAt replacements offset ∨ r ∈ later := by
  rw [← mem_readingOrder, h.order, List.mem_append, List.mem_append]

theorem pairwise (h : SplitAt replacements offset earlier later)
    (hdisjoint : replacements.Pairwise fun a b => ¬ a.Overlaps b) :
    earlier.Pairwise Replacement.Before ∧ later.Pairwise Replacement.Before := by
  have hbefore := readingOrder_pairwise hdisjoint
  rw [h.order, List.pairwise_append, List.pairwise_append] at hbefore
  exact ⟨hbefore.1, hbefore.2.1.2.1⟩

/-- Nothing that starts before an insertion reaches across it. -/
theorem stop_le (h : SplitAt replacements offset earlier later)
    (hdisjoint : replacements.Pairwise fun a b => ¬ a.Overlaps b) {insertion : Replacement}
    (hinsertion : insertion ∈ insertionsAt replacements offset) (hr : r ∈ earlier) :
    r.stop ≤ offset := by
  have hbefore := readingOrder_pairwise hdisjoint
  rw [h.order, List.pairwise_append] at hbefore
  rw [← (mem_insertionsAt.mp hinsertion).2.2]
  exact hbefore.2.2 r hr insertion (List.mem_append_left _ hinsertion)

/-- What stands behind the insertions ends behind the offset. -/
theorem lt_stop (h : SplitAt replacements offset earlier later)
    (hvalid : ∀ r ∈ replacements, r.validate source = .ok ()) (hr : r ∈ later) :
    offset < r.stop := by
  by_contra hnot
  have hstart := h.starts_behind r hr
  have hstop := r.start_le_stop
  have hoffset : r.start.toNat = offset := by omega
  have hfits : r.validate source = .ok () := hvalid r (h.mem_iff.mpr (Or.inr (Or.inr hr)))
  refine h.not_insertsAt r hr ?_
  rw [← hoffset]
  exact Replacement.insertsAt_of_stop_eq hfits (by omega)

end SplitAt

end Patch

end LintRepair
