import LintRepair.Text.Lines

/-!
# Lines one after the other

Every line of a text is a body without line breaks and an ending that is a line feed, a carriage
return, both, or nothing (`isLine_of_mem_lines`).  A line that ends with a line feed is complete: it
is cut off as it stands whatever follows (`lines_append`), so complete lines that are put together
are the lines of the text that they make up (`lines_flatten`).  With a line feed at its end, every
line is complete (`isComplete_withLineFeed`).
-/

namespace LintRepair.Text

variable {line : Line}

/-- The characters that end lines. -/
def IsBreak (c : Char) : Prop :=
  c = '\n' ∨ c = '\r'

instance (c : Char) : Decidable (IsBreak c) :=
  inferInstanceAs (Decidable (_ ∨ _))

/-- A body without line breaks, and an ending. -/
def IsLine (line : Line) : Prop :=
  ∃ body ending, line = body ++ ending ∧ (∀ c ∈ body, ¬ IsBreak c) ∧
    ending ∈ [[], ['\n'], ['\r'], ['\r', '\n']]

/-- A line that ends with a line feed. -/
def IsComplete (line : Line) : Prop :=
  ∃ body ending, line = body ++ ending ∧ (∀ c ∈ body, ¬ IsBreak c) ∧
    ending ∈ [['\n'], ['\r', '\n']]

theorem isLine_cons {c : Char} (hc : ¬ IsBreak c) (h : IsLine line) : IsLine (c :: line) := by
  obtain ⟨body, ending, rfl, hbody, hending⟩ := h
  exact ⟨c :: body, ending, rfl, List.forall_mem_cons.mpr ⟨hc, hbody⟩, hending⟩

theorem isLine_of_mem_lines {chars : List Char} (hline : line ∈ lines chars) : IsLine line := by
  fun_induction lines chars generalizing line with
  | case1 => cases hline
  | case2 rest ih =>
      rcases List.mem_cons.mp hline with rfl | hline
      · exact ⟨[], ['\r', '\n'], rfl, by simp, by simp⟩
      · exact ih hline
  | case3 c rest _ hbreak ih =>
      rcases List.mem_cons.mp hline with rfl | hline
      · refine ⟨[], [c], rfl, by simp, ?_⟩
        rcases hbreak with rfl | rfl <;> simp
      · exact ih hline
  | case4 c rest _ hbreak ih =>
      -- A character that breaks no line joins the first line of the rest, if there is one.
      generalize lines rest = found at hline ih
      cases found with
      | nil =>
          rw [glue, List.mem_singleton] at hline
          rw [hline]
          exact ⟨[c], [], rfl, List.forall_mem_singleton.mpr hbreak, by simp⟩
      | cons first others =>
          rcases List.mem_cons.mp hline with rfl | hline
          · exact isLine_cons hbreak (ih List.mem_cons_self)
          · exact ih (List.mem_cons_of_mem _ hline)

theorem isComplete_cons {c : Char} (hc : ¬ IsBreak c) (h : IsComplete line) :
    IsComplete (c :: line) := by
  obtain ⟨body, ending, rfl, hbody, hending⟩ := h
  exact ⟨c :: body, ending, rfl, List.forall_mem_cons.mpr ⟨hc, hbody⟩, hending⟩

theorem isComplete_withLineFeed (h : IsLine line) : IsComplete (withLineFeed line) := by
  obtain ⟨body, ending, rfl, hbody, hending⟩ := h
  simp only [List.mem_cons, List.not_mem_nil, or_false] at hending
  rcases hending with rfl | rfl | rfl | rfl
  · have hlast : (body ++ []).getLast? ≠ some '\n' := by
      intro hlast
      rw [List.append_nil] at hlast
      exact hbody _ (List.mem_of_getLast? hlast) (Or.inl rfl)
    rw [withLineFeed, if_neg hlast, List.append_nil]
    exact ⟨body, ['\n'], rfl, hbody, by simp⟩
  · rw [withLineFeed, if_pos (by simp)]
    exact ⟨body, ['\n'], rfl, hbody, by simp⟩
  · rw [withLineFeed, if_neg (by simp), List.append_assoc]
    exact ⟨body, ['\r', '\n'], rfl, hbody, by simp⟩
  · rw [withLineFeed, if_pos (by simp)]
    exact ⟨body, ['\r', '\n'], rfl, hbody, by simp⟩

theorem lines_cons {c : Char} (hc : ¬ IsBreak c) (chars : List Char) :
    lines (c :: chars) = glue c (lines chars) := by
  have hother : ¬ (c = '\n' ∨ c = '\r') := hc
  rw [lines, if_neg hother]
  rintro rest rfl
  exact (hc (Or.inr rfl)).elim

/-- A complete line is cut off as it stands. -/
theorem lines_append (h : IsComplete line) (rest : List Char) :
    lines (line ++ rest) = line :: lines rest := by
  obtain ⟨body, ending, rfl, hbody, hending⟩ := h
  induction body with
  | nil =>
      simp only [List.mem_cons, List.not_mem_nil, or_false] at hending
      rcases hending with rfl | rfl <;> simp [lines]
  | cons c body ih =>
      rw [List.forall_mem_cons] at hbody
      rw [List.cons_append, List.cons_append, lines_cons hbody.1, ih hbody.2, glue]

theorem lines_flatten {printed : List Line} (h : ∀ line ∈ printed, IsComplete line) :
    lines printed.flatten = printed := by
  induction printed with
  | nil => rfl
  | cons line printed ih =>
      rw [List.forall_mem_cons] at h
      rw [List.flatten_cons, lines_append h.1, ih h.2]

end LintRepair.Text
