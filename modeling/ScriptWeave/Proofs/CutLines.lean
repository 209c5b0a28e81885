import ScriptWeave.Proofs.LineStart

/-!
Lines are what lies between breaks. A text that is cut in two, but not within a break, has the breaks
of its parts and the lines of its parts, except that the line with the cut in it belongs to both. No
line holds a break, and lines that are each ended by a line feed are read again as they were.
-/

namespace ScriptWeave.Text

variable {t line front back : Text} {lines : List Text}

theorem unbroken_of_mem_breakLines (h : line ∈ breakLines t) : ∀ c ∈ line, c ≠ '\r' ∧ c ≠ '\n' := by
  induction t using induction_on_breaks generalizing line with
  | nil =>
      obtain rfl := List.mem_singleton.mp h
      simp
  | crlf rest ih =>
      rw [breakLines_crlf] at h
      rcases List.mem_cons.mp h with rfl | h
      · simp
      · exact ih h
  | lineEnd c rest hc hcut ih =>
      rw [breakLines_break hc hcut] at h
      rcases List.mem_cons.mp h with rfl | h
      · simp
      · exact ih h
  | char c rest hr hn ih =>
      obtain ⟨first, more, hrest⟩ := List.exists_cons_of_ne_nil (breakLines_ne_nil rest)
      rw [breakLines_char rest hr hn, hrest, List.modifyHead_cons] at h
      rw [hrest] at ih
      rcases List.mem_cons.mp h with rfl | h
      · rw [List.forall_mem_cons]
        exact ⟨⟨hr, hn⟩, ih List.mem_cons_self⟩
      · exact ih (List.mem_cons_of_mem _ h)

theorem mem_breakLines_of_splitLines (h : line ∈ splitLines t) : line ∈ breakLines t := by
  rw [splitLines_eq] at h
  rw [← closedLines_append_openLine]
  rcases List.mem_append.mp h with h | h
  · exact List.mem_append_left _ h
  · split at h
    · exact absurd h List.not_mem_nil
    · exact List.mem_append_right _ h

theorem breakLines_append_newline (hline : ∀ c ∈ line, c ≠ '\r' ∧ c ≠ '\n') (t : Text) :
    breakLines (line ++ '\n' :: t) = line :: breakLines t := by
  have hcut : ¬ PartsBreak line ('\n' :: t) := by
    rintro ⟨hlast, -⟩
    exact (hline '\r' (List.mem_of_getLast? hlast)).1 rfl
  have hfeed : ¬ PartsBreak ['\n'] t := by
    rintro ⟨hlast, -⟩
    simp at hlast
  have hnone := countLineBreaks_eq_zero hline
  rw [breakLines_append hcut, closedLines_of_countLineBreaks hnone, openLine_of_countLineBreaks hnone,
    breakLines_break (.inr rfl) hfeed, List.modifyHead_cons, List.append_nil, List.nil_append]

theorem breakLines_unlines (h : ∀ line ∈ lines, ∀ c ∈ line, c ≠ '\r' ∧ c ≠ '\n') :
    breakLines (unlines lines) = lines ++ [[]] := by
  induction lines with
  | nil => rfl
  | cons line lines ih =>
      obtain ⟨hline, hlines⟩ := List.forall_mem_cons.mp h
      have hfirst : unlines (line :: lines) = line ++ '\n' :: unlines lines := by
        rw [unlines, List.flatMap_cons, List.append_assoc, List.singleton_append, ← unlines]
      rw [hfirst, breakLines_append_newline hline, ih hlines, List.cons_append]

theorem splitLines_unlines (h : ∀ line ∈ lines, ∀ c ∈ line, c ≠ '\r' ∧ c ≠ '\n') :
    splitLines (unlines lines) = lines := by
  rw [splitLines, breakLines_unlines h, dropLastEmpty_append _ (by simp), dropLastEmpty, if_pos rfl,
    List.append_nil]

theorem unlines_eq_joinWith (h : lines ≠ []) : unlines lines = joinWith ['\n'] lines ++ ['\n'] := by
  induction lines with
  | nil => exact absurd rfl h
  | cons line lines ih =>
      rw [unlines, List.flatMap_cons, ← unlines]
      by_cases hmore : lines = []
      · rw [hmore]
        exact List.append_nil _
      · rw [ih hmore, joinWith_cons_of_ne_nil _ _ hmore, List.append_assoc, List.append_assoc,
          List.append_assoc]

theorem splitLines_front_cut (hcut : ¬ PartsBreak front back) (hfront : front ≠ []) :
    ∃ init last rest more, splitLines front = init ++ [last] ∧
      splitLines (front ++ back) = init ++ (last ++ rest) :: more := by
  by_cases hback : back = []
  · obtain hnil | ⟨init, last, hlines⟩ := List.eq_nil_or_concat' (splitLines front)
    · exact absurd hnil (splitLines_ne_nil hfront)
    · exact ⟨init, last, [], [], hlines, by rw [hback, List.append_nil, List.append_nil, hlines]⟩
  · obtain ⟨first, more, hrest⟩ := List.exists_cons_of_ne_nil (splitLines_ne_nil hback)
    have hwhole := splitLines_append hcut hback
    have hlines := splitLines_eq front
    rw [hrest, List.modifyHead_cons] at hwhole
    by_cases hopen : openLine front = []
    · -- The cut is right behind a break, and the last line of the front is whole.
      rw [if_pos hopen, List.append_nil] at hlines
      rw [← hlines] at hwhole
      obtain hnil | ⟨init, last, hconcat⟩ := List.eq_nil_or_concat' (splitLines front)
      · exact absurd hnil (splitLines_ne_nil hfront)
      · refine ⟨init, last, [], (openLine front ++ first) :: more, hconcat, ?_⟩
        rw [hwhole, hconcat, List.append_nil, List.append_assoc, List.singleton_append]
    · rw [if_neg hopen] at hlines
      exact ⟨_, _, first, more, hlines, hwhole⟩

/-- The line with the cut in it comes behind as many lines as the front has breaks, and the lines
behind it are those of the rest. -/
theorem splitLines_back_cut (hcut : ¬ PartsBreak front back) (hback : back ≠ []) :
    ∃ lead first more, splitLines back = first :: more ∧
      (splitLines (front ++ back)).drop (countLineBreaks front) = (lead ++ first) :: more := by
  obtain ⟨first, more, hlines⟩ := List.exists_cons_of_ne_nil (splitLines_ne_nil hback)
  refine ⟨openLine front, first, more, hlines, ?_⟩
  rw [splitLines_append hcut hback, ← length_closedLines, List.drop_left, hlines, List.modifyHead_cons]

/-- Line arithmetic holds under cutting: breaks add up, the lines behind the breaks of the front end
with those of the rest, and the lines of the front are those of the whole, but that the last may be
cut short. No line holds a break, and joined lines are read again as they were. -/
theorem lines_of_cut :
    (∀ front back : Text, ¬ PartsBreak front back →
      countLineBreaks (front ++ back) = countLineBreaks front + countLineBreaks back ∧
      (back ≠ [] → ∃ lead first more, splitLines back = first :: more ∧
        (splitLines (front ++ back)).drop (countLineBreaks front) = (lead ++ first) :: more) ∧
      (front ≠ [] → ∃ init last rest more, splitLines front = init ++ [last] ∧
        splitLines (front ++ back) = init ++ (last ++ rest) :: more)) ∧
    (∀ t : Text, ∀ line ∈ splitLines t, '\r' ∉ line ∧ '\n' ∉ line) ∧
    ∀ t : Text, t ≠ [] → splitLines (joinWith ['\n'] (splitLines t) ++ ['\n']) = splitLines t := by
  have hunbroken : ∀ t : Text, ∀ line ∈ splitLines t, ∀ c ∈ line, c ≠ '\r' ∧ c ≠ '\n' :=
    fun t line hline => unbroken_of_mem_breakLines (mem_breakLines_of_splitLines hline)
  refine ⟨fun front back hcut => ?_, fun t line hline => ⟨?_, ?_⟩, fun t ht => ?_⟩
  · exact ⟨countLineBreaks_append hcut, splitLines_back_cut hcut, splitLines_front_cut hcut⟩
  · exact fun hr => (hunbroken t line hline '\r' hr).1 rfl
  · exact fun hn => (hunbroken t line hline '\n' hn).2 rfl
  · rw [← unlines_eq_joinWith (splitLines_ne_nil ht), splitLines_unlines (hunbroken t)]

/-- A cut on the line behind a break of two characters, in front of an empty line. -/
theorem lines_of_cut_two_lines :
    let front : Text := "a\r\nbc".toList
    let back : Text := "d\r\re\n".toList
    ¬ PartsBreak front back ∧ countLineBreaks (front ++ back) = 1 + 3 ∧
      ∃ lead first more, splitLines back = first :: more ∧
        (splitLines (front ++ back)).drop 1 = (lead ++ first) :: more := by
  intro front back
  have hcut : ¬ PartsBreak front back := by
    rintro ⟨hlast, -⟩
    exact absurd hlast (by decide)
  obtain ⟨hbreaks, hback, -⟩ := lines_of_cut.1 front back hcut
  exact ⟨hcut, hbreaks, hback (by decide)⟩

end ScriptWeave.Text
