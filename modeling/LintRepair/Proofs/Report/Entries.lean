import LintRepair.Proofs.Report.Drafts

/-!
# Fixes within failures

A fix is read in two ways, alone and among the fixes of a failure, and both mean the same.  A
failure that can be read stays readable when its fixes are replaced by others that can be
(`isFailure_fill`), so what the failure around a fix does to it comes down to `readEntry`, which
knows the rule of the failure only (`readFailure_insert_eq_ok_iff`).

* A fix with a rule of its own shows the same parts to both readers, and the rule around it does
  not matter: `readEntry_eq_ok_iff_of_hasTextRule`.
* A fix without one is read as the fix with the rule of the failure put in:
  `readEntry_eq_ok_iff_of_setsRule`, from `SetsRule.shows_iff`, which says that nothing else
  changes.

`fix_readers_agree` states both for a fix at any place in the fixes of any failure.
-/

namespace LintRepair.Report

open Json (Value Key Fault)

/-! ## One part of a record -/

namespace Layout

variable {names : List String} {part : String → Option Value} {name : String}

theorem valuesOf_append (name : String) (front back : List (Key × Value)) :
    valuesOf name (front ++ back) = valuesOf name front ++ valuesOf name back :=
  List.filterMap_append

theorem valuesOf_cons (name other : String) (value : Value) (rest : List (Key × Value)) :
    valuesOf name ((.text other, value) :: rest) =
      if other = name then value :: valuesOf name rest else valuesOf name rest := by
  unfold valuesOf
  by_cases heq : other = name <;> simp [heq]

theorem append_cons_eq_toList_iff {front back : List Value} {value : Value}
    {given : Option Value} :
    front ++ value :: back = given.toList ↔ given = some value ∧ front ++ back = [] := by
  cases given with
  | none => simp
  | some other =>
    simp only [Option.toList_some, List.append_eq_singleton_iff, List.cons.injEq, reduceCtorEq,
      and_false, or_false, Option.some.injEq, List.append_eq_nil_iff]
    exact ⟨fun ⟨hfront, hvalue, hback⟩ => ⟨hvalue.symm, hfront, hback⟩,
      fun ⟨hvalue, hfront, hback⟩ => ⟨hfront, hvalue.symm, hback⟩⟩

theorem passable_append_cons_iff {before after : List (Key × Value)} {value : Value}
    (hname : name ∈ names) :
    Passable names (before ++ (.text name, value) :: after) ↔ Passable names (before ++ after) := by
  unfold Passable
  rw [List.forall_mem_append, List.forall_mem_append, List.forall_mem_cons]
  simp [hname]

theorem valuesOf_append_cons_iff {before after : List (Key × Value)} {value : Value}
    (hname : name ∈ names) :
    (∀ other ∈ names,
        valuesOf other (before ++ (.text name, value) :: after) = (part other).toList) ↔
      part name = some value ∧ ∀ other ∈ names,
        valuesOf other (before ++ after) = (Function.update part name none other).toList := by
  simp only [valuesOf_append, valuesOf_cons]
  constructor
  · intro h
    -- Under its own name the member is the one value, and there is none without it.
    have hself := h name hname
    rw [if_pos rfl] at hself
    obtain ⟨hpart, hnone⟩ := append_cons_eq_toList_iff.mp hself
    refine ⟨hpart, fun other hother => ?_⟩
    by_cases heq : name = other
    · subst heq
      rw [Function.update_self, hnone]
      rfl
    · rw [Function.update_of_ne (Ne.symm heq), ← h other hother, if_neg heq]
  · rintro ⟨hpart, h⟩ other hother
    by_cases heq : name = other
    · subst heq
      rw [if_pos rfl, append_cons_eq_toList_iff]
      refine ⟨hpart, ?_⟩
      rw [h name hname, Function.update_self]
      rfl
    · rw [if_neg heq, h other hother, Function.update_of_ne (Ne.symm heq)]

/-- An object shows a part where a member has it if it shows none there without that member. -/
theorem shows_object_iff {before after : List (Key × Value)} {fault : Option Fault} {value : Value}
    (hname : name ∈ names) :
    Shows names part (.object (before ++ (.text name, value) :: after) fault) ↔
      part name = some value ∧
        Shows names (Function.update part name none) (.object (before ++ after) fault) := by
  constructor
  · intro hshows
    cases hshows with
    | object hknown hothers =>
      obtain ⟨hpart, hrest⟩ := (valuesOf_append_cons_iff hname).mp hknown
      exact ⟨hpart, .object hrest ((passable_append_cons_iff hname).mp hothers)⟩
  · rintro ⟨hpart, hshows⟩
    cases hshows with
    | object hknown hothers =>
      exact .object ((valuesOf_append_cons_iff hname).mpr ⟨hpart, hknown⟩)
        ((passable_append_cons_iff hname).mpr hothers)

/-- Arrays that differ in one place show parts that differ under its name. -/
theorem Shows.array_update {items : List Value} {k : Nat}
    (hshows : Shows names part (.list items)) (others : List Value) (hnames : names.Nodup)
    (hname : names[k]? = some name) (hlength : others.length ≤ names.length)
    (hothers : ∀ l, l ≠ k → others[l]? = items[l]?) :
    Shows names (Function.update part name others[k]?) (.list others) := by
  cases hshows with
  | array few known =>
    refine .array hlength fun l other hother => ?_
    by_cases heq : l = k
    · subst heq
      obtain rfl := Option.some.inj (hname.symm.trans hother)
      exact Function.update_self ..
    · -- Names differ where places do, so the other parts are those of the other array.
      have hne : other ≠ name := by
        rintro rfl
        obtain ⟨hl, -⟩ := List.getElem?_eq_some_iff.mp hother
        exact heq ((List.getElem?_inj hl hnames).mp (hother.trans hname.symm))
      rw [Function.update_of_ne hne, hothers l heq]
      exact known l other hother

/-- An array shows what another shows that differs from it in one place, but for that place. -/
theorem shows_array_iff (items others : List Value) {k : Nat} (hnames : names.Nodup)
    (hname : names[k]? = some name)
    (hlength : items.length ≤ names.length ↔ others.length ≤ names.length)
    (hothers : ∀ l, l ≠ k → others[l]? = items[l]?) :
    Shows names part (.list items) ↔
      part name = items[k]? ∧
        Shows names (Function.update part name others[k]?) (.list others) := by
  constructor
  · intro hshows
    cases hshows with
    | array few known =>
      have hshows : Shows names part (.list items) := .array few known
      exact ⟨known k name hname,
        hshows.array_update others hnames hname (hlength.mp few) hothers⟩
  · rintro ⟨hpart, hshows⟩
    cases hshows with
    | array few known =>
      have hshows : Shows names (Function.update part name others[k]?) (.list others) :=
        .array few known
      -- Setting the place back again undoes the update.
      have hback := hshows.array_update items hnames hname (hlength.mpr few)
        fun l hl => (hothers l hl).symm
      rwa [Function.update_idem, ← hpart, Function.update_eq_self] at hback

end Layout

/-! ## A fix by itself -/

/-- The fix that a value is read as within a failure of `rule`. -/
def readEntry (rule : String) (value : Value) : Except ReadError Fix := do
  let draft ← failureFixLayout.read {} value
  draft.toFix rule

/-- The rule of a fix is the text `rule`. -/
inductive HasTextRule (rule : String) : Value → Prop where
  | member (before after : List (Key × Value)) (fault : Option Fault) :
      HasTextRule rule (.object (before ++ (.text "rule", .text rule) :: after) fault)
  | item (rest : List Value) (fault : Option Fault) :
      HasTextRule rule (.array (.text rule :: rest) fault)

/-- A fix without a rule, or with `null` as its rule, and the same fix with `rule` in that place. -/
inductive SetsRule (rule : String) : Value → Value → Prop where
  | absent {before after : List (Key × Value)} (fault : Option Fault)
      (habsent : ∀ member ∈ before ++ after, member.1 ≠ .text "rule") :
      SetsRule rule (.object (before ++ after) fault)
        (.object (before ++ (.text "rule", .text rule) :: after) fault)
  | null (before after : List (Key × Value)) (fault : Option Fault) :
      SetsRule rule (.object (before ++ (.text "rule", .null) :: after) fault)
        (.object (before ++ (.text "rule", .text rule) :: after) fault)
  | nullItem (rest : List Value) (fault : Option Fault) :
      SetsRule rule (.array (.null :: rest) fault) (.array (.text rule :: rest) fault)

variable {value other : Value} {part : String → Option Value} {rule : String} {fix : Fix}

theorem HasTextRule.part_eq (h : HasTextRule rule value)
    (hshows : Layout.Shows fixNames part value) : part "rule" = some (.text rule) := by
  cases h with
  | member before after fault =>
    exact ((Layout.shows_object_iff (List.mem_cons_self : "rule" ∈ fixNames)).mp hshows).1
  | item rest fault =>
    cases hshows with
    | array _ known => exact known 0 "rule" rfl

theorem HasTextRule.rule_eq {draft : FixDraft} (h : HasTextRule rule value)
    (hfix : IsFix value draft) : draft.rule = some rule := by
  obtain ⟨part, hshows, ⟨found, hfound, hrule⟩, -⟩ := hfix
  obtain rfl := Value.text.inj (Option.some.inj (hfound.symm.trans (h.part_eq hshows)))
  exact hrule

theorem SetsRule.hasTextRule (h : SetsRule rule value other) : HasTextRule rule other := by
  cases h with
  | absent fault _ => exact .member ..
  | null before after fault => exact .member ..
  | nullItem rest fault => exact .item ..

/-- A fix with a text as its rule is the same to both readers. -/
theorem isFailureFix_iff_isFix {draft : FixDraft} (h : HasTextRule rule value) :
    IsFailureFix value draft ↔ IsFix value draft := by
  refine exists_congr fun part => and_congr_right fun hshows => and_congr_left fun _ => ?_
  rw [h.part_eq hshows]
  constructor
  · intro hdefault
    generalize hgiven : draft.rule = given at hdefault
    cases hdefault
    exact ⟨rule, rfl, rfl⟩
  · rintro ⟨found, hfound, hdraft⟩
    obtain rfl := Value.text.inj (Option.some.inj hfound)
    rw [hdraft]
    exact .text rule

theorem readEntry_eq_ok_iff :
    readEntry rule value = .ok fix ↔
      ∃ draft, IsFailureFix value draft ∧ draft.toFix rule = .ok fix := by
  unfold readEntry
  rw [FirstError.bind_eq_ok_iff]
  simp only [readFailureFixDraft_eq_ok_iff]

theorem readFix_eq_ok_iff :
    readFix value = .ok fix ↔ ∃ draft, IsFix value draft ∧ draft.toFix "" = .ok fix := by
  unfold readFix
  rw [FirstError.bind_eq_ok_iff]
  simp only [readFixDraft_eq_ok_iff]

/-- The rule around a fix with a rule of its own does not matter. -/
theorem FixDraft.toFix_eq_of_rule {draft : FixDraft} {own : String} (hown : draft.rule = some own)
    (rule around : String) : draft.toFix rule = draft.toFix around := by
  unfold FixDraft.toFix
  rw [hown]
  rfl

theorem readEntry_eq_ok_iff_of_hasTextRule {own : String} (h : HasTextRule own value) :
    readEntry rule value = .ok fix ↔ readFix value = .ok fix := by
  rw [readEntry_eq_ok_iff, readFix_eq_ok_iff]
  refine exists_congr fun draft => ?_
  rw [isFailureFix_iff_isFix h]
  refine and_congr_right fun ⟨_, _, ⟨_, _, hown⟩, _⟩ => ?_
  rw [draft.toFix_eq_of_rule hown rule ""]

/-- A fix without a rule shows what it shows with the rule that it gets, but for that rule. -/
theorem SetsRule.shows_iff (h : SetsRule rule value other) :
    ∃ given, (given = none ∨ given = some Value.null) ∧
      ∀ part, Layout.Shows fixNames part value ↔
        part "rule" = given ∧
          Layout.Shows fixNames (Function.update part "rule" (some (.text rule))) other := by
  have hname : "rule" ∈ fixNames := List.mem_cons_self
  cases h with
  | @absent before after fault habsent =>
    refine ⟨none, .inl rfl, fun part => ?_⟩
    rw [Layout.shows_object_iff hname, Function.update_self, Function.update_idem]
    -- There is no rule among the other members, so the part is missing, not null.
    have hnone : Layout.valuesOf "rule" (before ++ after) = [] := by
      refine List.eq_nil_iff_forall_not_mem.mpr fun found hfound => ?_
      exact habsent _ (Layout.mem_valuesOf.mp hfound) rfl
    constructor
    · intro hshows
      have hpart : part "rule" = none := by
        cases hshows with
        | object hknown _ =>
          have hrule := hknown "rule" List.mem_cons_self
          rw [hnone] at hrule
          exact Option.toList_eq_nil_iff.mp hrule.symm
      refine ⟨hpart, rfl, ?_⟩
      rwa [← hpart, Function.update_eq_self]
    · rintro ⟨hpart, -, hshows⟩
      rwa [← hpart, Function.update_eq_self] at hshows
  | null before after fault =>
    refine ⟨some .null, .inr rfl, fun part => ?_⟩
    rw [Layout.shows_object_iff hname, Layout.shows_object_iff hname, Function.update_self,
      Function.update_idem]
    simp only [true_and]
  | nullItem rest fault =>
    refine ⟨some .null, .inr rfl, fun part => ?_⟩
    cases fault with
    | some fault => exact ⟨nofun, fun h => nomatch h.2⟩
    -- The two arrays differ in the first place only, which is that of the rule.
    | none =>
      have hrest : ∀ l, l ≠ 0 → (Value.text rule :: rest)[l]? = (Value.null :: rest)[l]? := by
        intro l hl
        rw [List.getElem?_cons, List.getElem?_cons, if_neg hl, if_neg hl]
      exact Layout.shows_array_iff (.null :: rest) (.text rule :: rest) nodup_fixNames rfl Iff.rfl
        hrest

theorem IsFixBodyOf.update {draft : FixDraft} (hbody : IsFixBodyOf part draft)
    (given : Option Value) (own : Option String) :
    IsFixBodyOf (Function.update part "rule" given) { draft with rule := own } := by
  refine ⟨?_, ?_⟩
  · rw [Function.update_of_ne (by decide)]
    exact hbody.description
  · rw [Function.update_of_ne (by decide)]
    exact hbody.replacements

theorem isFailureFix_iff_isFix_of_setsRule (h : SetsRule rule value other) {draft : FixDraft} :
    IsFailureFix value draft ↔
      draft.rule = none ∧ IsFix other { draft with rule := some rule } := by
  obtain ⟨given, hgiven, hshows⟩ := h.shows_iff
  constructor
  · rintro ⟨part, hpart, hrule, hbody⟩
    obtain ⟨hpartrule, hother⟩ := (hshows part).mp hpart
    -- A rule that is missing or null is read as none.
    have hnone : draft.rule = none := by
      rw [hpartrule] at hrule
      rcases hgiven with rfl | rfl
      · exact hrule
      · generalize draft.rule = own at hrule
        cases hrule
        rfl
    exact ⟨hnone, _, hother, ⟨rule, Function.update_self .., rfl⟩, hbody.update _ _⟩
  · rintro ⟨hnone, part, hpart, ⟨found, hfound, hrule⟩, hbody⟩
    obtain rfl := Option.some.inj hrule
    refine ⟨Function.update part "rule" given, (hshows _).mpr ⟨Function.update_self .., ?_⟩, ?_,
      hbody.update given draft.rule⟩
    · rwa [Function.update_idem, ← hfound, Function.update_eq_self]
    · rw [Function.update_self, hnone]
      rcases hgiven with rfl | rfl
      · rfl
      · exact .null

theorem readEntry_eq_ok_iff_of_setsRule (h : SetsRule rule value other) :
    readEntry rule value = .ok fix ↔ readFix other = .ok fix := by
  rw [readEntry_eq_ok_iff, readFix_eq_ok_iff]
  simp only [isFailureFix_iff_isFix_of_setsRule h]
  constructor
  · rintro ⟨draft, ⟨hnone, hother⟩, hfix⟩
    refine ⟨_, hother, ?_⟩
    unfold FixDraft.toFix at hfix ⊢
    rw [hnone] at hfix
    exact hfix
  · rintro ⟨draft, hother, hfix⟩
    have hdraft : draft = { draft with rule := some rule } := by
      rw [← h.hasTextRule.rule_eq hother]
    refine ⟨{ draft with rule := none }, ⟨rfl, hdraft ▸ hother⟩, ?_⟩
    rw [hdraft] at hfix
    exact hfix

/-! ## Failures around fixes -/

/-- What becomes of the fixes of a failure does not depend on the fixes that it had before. -/
theorem FailureDraft.toFailure_withFixes {draft : FailureDraft} {failure : Failure}
    (hfailure : draft.toFailure = .ok failure) (fixes : List FixDraft) :
    ({ draft with fixes } : FailureDraft).toFailure =
      (fixes.mapM fun fix : FixDraft => fix.toFix failure.rule).map
        fun fixes => { failure with fixes } := by
  unfold toFailure at hfailure ⊢
  split at hfailure
  next hordered =>
    obtain ⟨_, -, hall⟩ := FirstError.bind_eq_ok_iff.mp hfailure
    obtain rfl := Except.ok.inj hall
    rw [dif_pos hordered]
    cases fixes.mapM fun fix => fix.toFix draft.rule <;> rfl
  next => cases hfailure

/-- A failure around the place for its fixes. -/
inductive Frame where
  | object (before after : List (Key × Value))
  | array (file rule start stop message severity : Value)

/-- The failure with these fixes in the place for them. -/
def Frame.fill (frame : Frame) (fixes : List Value) : Value :=
  match frame with
  | .object before after => .object (before ++ (.text "fixes", .list fixes) :: after) none
  | .array file rule start stop message severity =>
      .list [file, rule, start, stop, message, severity, .list fixes]

variable {frame : Frame} {fixes others : List Value}

theorem shows_fill (hshows : Layout.Shows failureNames part (frame.fill fixes)) :
    part "fixes" = some (.list fixes) ∧ ∀ others,
      Layout.Shows failureNames (Function.update part "fixes" (some (.list others)))
        (frame.fill others) := by
  cases frame with
  | object before after =>
    have hname : "fixes" ∈ failureNames := by decide
    obtain ⟨hpart, hrest⟩ := (Layout.shows_object_iff hname).mp hshows
    refine ⟨hpart, fun others => (Layout.shows_object_iff hname).mpr ?_⟩
    rw [Function.update_self, Function.update_idem]
    exact ⟨rfl, hrest⟩
  | array file rule start stop message severity =>
    -- In an array the fixes come last, at place six.
    have hname : failureNames[6]? = some "fixes" := rfl
    constructor
    · cases hshows with
      | array few known => exact known 6 "fixes" hname
    · intro others
      have hset : [file, rule, start, stop, message, severity, .list others] =
        [file, rule, start, stop, message, severity, .list fixes].set 6 (.list others) := rfl
      refine hshows.array_update [file, rule, start, stop, message, severity, .list others]
        nodup_failureNames hname (Nat.le_refl 7) fun l hl => ?_
      rw [hset, List.getElem?_set_ne (Ne.symm hl)]

theorem IsFailureOf.update {draft : FailureDraft} (h : IsFailureOf part draft)
    {fixes : List Value} {drafts : List FixDraft}
    (hfixes : List.Forall₂ IsFailureFix fixes drafts) :
    IsFailureOf (Function.update part "fixes" (some (.list fixes)))
      { draft with fixes := drafts } := by
  have hother {name : String} (hne : name ≠ "fixes") :
      Function.update part "fixes" (some (.list fixes)) name = part name :=
    Function.update_of_ne hne ..
  constructor
  · rw [hother (by decide), h.file]
  · rw [hother (by decide), h.rule]
  · rw [hother (by decide), h.start]
  · rw [hother (by decide), h.stop]
  · rw [hother (by decide)]
    exact h.message
  · rw [hother (by decide)]
    exact h.severity
  · rw [Function.update_self]
    exact ⟨fixes, rfl, hfixes⟩

/-- A failure can have any other fixes in the place of its own, and keeps all its other parts. -/
theorem isFailure_fill {draft : FailureDraft} (h : IsFailure (frame.fill fixes) draft) :
    List.Forall₂ IsFailureFix fixes draft.fixes ∧ ∀ others drafts,
      List.Forall₂ IsFailureFix others drafts →
        IsFailure (frame.fill others) { draft with fixes := drafts } := by
  obtain ⟨part, hshows, hparts⟩ := h
  obtain ⟨hfixes, hrefill⟩ := shows_fill hshows
  constructor
  · have hlist := hparts.fixes
    rw [hfixes] at hlist
    obtain ⟨items, hitems, hall⟩ := hlist
    obtain ⟨rfl, -⟩ := Value.array.inj hitems
    exact hall
  · intro others drafts hothers
    exact ⟨_, hrefill others, hparts.update hothers⟩

theorem readFailureDraft_fill_eq_ok_iff {draft other : FailureDraft}
    (hdraft : failureLayout.read {} (frame.fill fixes) = .ok draft) :
    failureLayout.read {} (frame.fill others) = .ok other ↔
      ∃ drafts, others.mapM (failureFixLayout.read {}) = .ok drafts ∧
        { draft with fixes := drafts } = other := by
  simp only [FirstError.mapM_eq_ok_iff, readFailureFixDraft_eq_ok_iff]
  obtain ⟨-, hrefill⟩ := isFailure_fill (readFailureDraft_eq_ok_iff.mp hdraft)
  constructor
  · intro hother
    obtain ⟨hothers, -⟩ := isFailure_fill (readFailureDraft_eq_ok_iff.mp hother)
    refine ⟨other.fixes, hothers, ?_⟩
    -- Reading is a function, so the draft is the first one with these fixes.
    have hsame := readFailureDraft_eq_ok_iff.mpr (hrefill others other.fixes hothers)
    exact Except.ok.inj (hsame.symm.trans hother)
  · rintro ⟨drafts, hothers, rfl⟩
    exact readFailureDraft_eq_ok_iff.mpr (hrefill others drafts hothers)

/-- Fixes within a failure are read one by one, each as an entry of its rule. -/
theorem readFailure_fill_eq_ok_iff {failure result : Failure}
    (hframe : readFailure (frame.fill fixes) = .ok failure) :
    readFailure (frame.fill others) = .ok result ↔
      ∃ list, others.mapM (readEntry failure.rule) = .ok list ∧
        { failure with fixes := list } = result := by
  obtain ⟨draft, hdraft, hfailure⟩ := FirstError.bind_eq_ok_iff.mp hframe
  have hresult := FailureDraft.toFailure_withFixes hfailure
  unfold readFailure readEntry
  simp only [FirstError.bind_eq_ok_iff, readFailureDraft_fill_eq_ok_iff hdraft,
    FirstError.mapM_bind_eq_ok_iff]
  constructor
  · rintro ⟨_, ⟨drafts, hdrafts, rfl⟩, hall⟩
    rw [hresult, FirstError.map_eq_ok_iff] at hall
    obtain ⟨list, hlist, hall⟩ := hall
    exact ⟨list, ⟨drafts, hdrafts, hlist⟩, hall⟩
  · rintro ⟨list, ⟨drafts, hdrafts, hlist⟩, hall⟩
    refine ⟨_, ⟨drafts, hdrafts, rfl⟩, ?_⟩
    rw [hresult, FirstError.map_eq_ok_iff]
    exact ⟨list, hlist, hall⟩

/-- The failure with one more fix, before which there are `n`. -/
def withFix (n : Nat) (failure : Failure) (fix : Fix) : Failure :=
  { failure with fixes := failure.fixes.take n ++ fix :: failure.fixes.drop n }

theorem readFailure_insert_eq_ok_iff {front back : List Value} {value : Value}
    {failure result : Failure}
    (hframe : readFailure (frame.fill (front ++ back)) = .ok failure) :
    readFailure (frame.fill (front ++ value :: back)) = .ok result ↔
      ∃ fix, readEntry failure.rule value = .ok fix ∧
        withFix front.length failure fix = result := by
  obtain ⟨list, hlist, hsame⟩ := (readFailure_fill_eq_ok_iff hframe).mp hframe
  obtain rfl : list = failure.fixes := by rw [← hsame]
  rw [readFailure_fill_eq_ok_iff hframe, FirstError.mapM_insert hlist]
  simp only [FirstError.map_eq_ok_iff]
  constructor
  · rintro ⟨_, ⟨fix, hfix, rfl⟩, rfl⟩
    exact ⟨fix, hfix, rfl⟩
  · rintro ⟨fix, hfix, rfl⟩
    exact ⟨_, ⟨fix, hfix, rfl⟩, rfl⟩

theorem toOption_eq_some_iff {ε α : Type} {result : Except ε α} {value : α} :
    result.toOption = some value ↔ result = .ok value := by
  cases result <;> simp [Except.toOption]

/-- A fix whose rule is a text is read within a failure as it is read alone, and a fix without a
rule as it is read alone with the rule of the failure.  The failure can be any that is valid without
the fix. -/
theorem fix_readers_agree {front back : List Value} {failure : Failure}
    (hframe : readFailure (frame.fill (front ++ back)) = .ok failure) :
    (∀ rule value, HasTextRule rule value →
      (readFailure (frame.fill (front ++ value :: back))).toOption =
        (readFix value).toOption.map (withFix front.length failure)) ∧
    (∀ value other, SetsRule failure.rule value other →
      (readFailure (frame.fill (front ++ value :: back))).toOption =
        (readFix other).toOption.map (withFix front.length failure)) := by
  constructor
  · intro rule value hrule
    ext result
    simp only [Option.map_eq_some_iff, toOption_eq_some_iff, readFailure_insert_eq_ok_iff hframe,
      readEntry_eq_ok_iff_of_hasTextRule hrule]
  · intro value other hrule
    ext result
    simp only [Option.map_eq_some_iff, toOption_eq_some_iff, readFailure_insert_eq_ok_iff hframe,
      readEntry_eq_ok_iff_of_setsRule hrule]

/-- A failure without fixes, its fields in no order and the place for fixes among them. -/
def tabsFrame : Frame :=
  .object [(.text "rule", .text "tabs"), (.text "end", .natural 5)]
    [(.text "start", .natural 2), (.text "file", .text "a.md")]

def tabsFailure : Failure :=
  ⟨"a.md", "tabs", 2, 5, "", .error, [], by decide⟩

theorem fix_readers_agree_tabs :
    readFailure (tabsFrame.fill ([] ++ [])) = .ok tabsFailure ∧
      HasTextRule "spaces" (.list (.text "spaces" :: [.text "use spaces"])) ∧
      (readFailure (tabsFrame.fill [.list [.text "spaces", .text "use spaces"]])).toOption =
        some { tabsFailure with fixes := [⟨"spaces", "use spaces", [], .nil⟩] } ∧
      SetsRule tabsFailure.rule
        (.object ([(.text "note", .bool true)] ++ (.text "rule", .null) :: []) none)
        (.object ([(.text "note", .bool true)] ++ (.text "rule", .text "tabs") :: []) none) ∧
      (readFailure (tabsFrame.fill
          [.object [(.text "note", .bool true), (.text "rule", .null)] none])).toOption =
        some { tabsFailure with fixes := [⟨"tabs", "", [], .nil⟩] } := by
  have hframe : readFailure (tabsFrame.fill ([] ++ [])) = .ok tabsFailure := by
    decide +kernel
  have hown : HasTextRule "spaces" (.list (.text "spaces" :: [.text "use spaces"])) := .item ..
  have hset : SetsRule tabsFailure.rule
      (.object ([(.text "note", .bool true)] ++ (.text "rule", .null) :: []) none)
      (.object ([(.text "note", .bool true)] ++ (.text "rule", .text "tabs") :: []) none) :=
    .null ..
  refine ⟨hframe, hown, ((fix_readers_agree hframe).1 _ _ hown).trans ?_, hset,
    ((fix_readers_agree hframe).2 _ _ hset).trans ?_⟩
  · decide +kernel
  · decide +kernel

end LintRepair.Report
