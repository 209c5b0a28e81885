import ScriptWeave.Proofs.Lines

namespace ScriptWeave.Text

def lineStart : Nat → Text → Nat
  | 0, _ => 0
  | _ + 1, [] => 0
  | k + 1, '\r' :: '\n' :: rest => lineStart k rest + 2
  | k + 1, c :: rest =>
      if c = '\r' ∨ c = '\n' then lineStart k rest + 1 else lineStart (k + 1) rest + 1

theorem lineStart_zero (t : Text) : lineStart 0 t = 0 := by
  rw [lineStart]

theorem lineStart_crlf (k : Nat) (t : Text) :
    lineStart (k + 1) ('\r' :: '\n' :: t) = lineStart k t + 2 := by
  rw [lineStart]

theorem lineStart_break {c : Char} {t : Text} (k : Nat) (hc : c = '\r' ∨ c = '\n')
    (h : ¬ PartsBreak [c] t) : lineStart (k + 1) (c :: t) = lineStart k t + 1 := by
  rw [lineStart, if_pos hc]
  rintro rest rfl rfl
  exact h ⟨rfl, rfl⟩

theorem lineStart_char {c : Char} (k : Nat) (t : Text) (hr : c ≠ '\r') (hn : c ≠ '\n') :
    lineStart (k + 1) (c :: t) = lineStart (k + 1) t + 1 := by
  rw [lineStart, if_neg (by simp [hr, hn])]
  rintro rest rfl rfl
  exact absurd rfl hr

theorem prefix_drop_lineStart {t line : Text} {k : Nat} (h : (breakLines t)[k]? = some line) :
    line <+: t.drop (lineStart k t) := by
  induction t using induction_on_breaks generalizing k line with
  | nil =>
      have hline : line = [] := by
        have hmem : line ∈ breakLines [] := List.mem_of_getElem? h
        simpa [breakLines] using hmem
      simp [hline]
  | crlf rest ih =>
      rw [breakLines_crlf] at h
      cases k with
      | zero =>
          obtain rfl : [] = line := by simpa using h
          exact List.nil_prefix
      | succ k =>
          rw [lineStart_crlf]
          exact ih (by simpa using h)
  | lineEnd c rest hc hcut ih =>
      rw [breakLines_break hc hcut] at h
      cases k with
      | zero =>
          obtain rfl : [] = line := by simpa using h
          exact List.nil_prefix
      | succ k =>
          rw [lineStart_break k hc hcut]
          exact ih (by simpa using h)
  | char c rest hr hn ih =>
      rw [breakLines_char _ hr hn] at h
      cases k with
      | zero =>
          obtain ⟨first, hfirst, rfl⟩ : ∃ first, (breakLines rest)[0]? = some first ∧
              c :: first = line := by
            simpa [List.getElem?_modifyHead] using h
          have hprefix := ih hfirst
          rw [lineStart_zero, List.drop_zero] at hprefix ⊢
          exact List.cons_prefix_cons.mpr ⟨rfl, hprefix⟩
      | succ k =>
          rw [lineStart_char k rest hr hn]
          exact ih (by simpa [List.getElem?_modifyHead] using h)

theorem getElem?_breakLines_of_splitLines {t line : Text} {k : Nat}
    (h : (splitLines t)[k]? = some line) : (breakLines t)[k]? = some line := by
  rw [splitLines_eq] at h
  rw [← closedLines_append_openLine]
  split at h
  · rw [List.append_nil] at h
    rw [List.getElem?_append_left (List.getElem?_eq_some_iff.mp h).1, h]
  · exact h

theorem getElem?_lineStart_add {t row : Text} {k c : Nat} (h : (splitLines t)[k]? = some row)
    (hc : c < row.length) : t[lineStart k t + c]? = row[c]? := by
  obtain ⟨rest, hrest⟩ := prefix_drop_lineStart (getElem?_breakLines_of_splitLines h)
  rw [← List.getElem?_drop, ← hrest, List.getElem?_append_left hc]

/-- The lines of the rest start where they start in the whole. Only the first of them may start
earlier in the whole, by what stands on it in front of the cut. -/
theorem lineStart_append {front back : Text} (h : ¬ PartsBreak front back) (k : Nat) :
    front.length + lineStart k back =
      lineStart (countLineBreaks front + k) (front ++ back)
        + if k = 0 then (openLine front).length else 0 := by
  induction front using induction_on_breaks with
  | nil =>
      have hopen : openLine [] = [] := rfl
      have hcount : countLineBreaks [] = 0 := rfl
      simp [hopen, hcount]
  | crlf rest ih =>
      have hrest := ih (not_partsBreak_tail (not_partsBreak_tail h))
      rw [openLine_crlf, countLineBreaks_crlf, Nat.add_right_comm, List.cons_append,
        List.cons_append, lineStart_crlf, List.length_cons, List.length_cons]
      omega
  | lineEnd c rest hc hcut ih =>
      have hrest := ih (not_partsBreak_tail h)
      rw [openLine_break hc hcut, countLineBreaks_break hc hcut, Nat.add_right_comm,
        List.cons_append, lineStart_break _ hc (not_partsBreak_singleton hcut h),
        List.length_cons]
      omega
  | char c rest hr hn ih =>
      have hrest := ih (not_partsBreak_tail h)
      rw [openLine_char rest hr hn, countLineBreaks_char rest hr hn, List.cons_append,
        List.length_cons]
      cases hn' : countLineBreaks rest + k with
      | zero =>
          obtain ⟨hzero, rfl⟩ : countLineBreaks rest = 0 ∧ k = 0 := by omega
          rw [hn', lineStart_zero, lineStart_zero] at hrest
          rw [lineStart_zero, lineStart_zero, if_pos hzero]
          simp only [if_true, List.length_cons] at hrest ⊢
          omega
      | succ n =>
          rw [hn'] at hrest
          rw [lineStart_char n _ hr hn]
          by_cases hk : k = 0
          -- The line with the cut on it starts behind a break, and the character in front of that.
          · have hpos : countLineBreaks rest ≠ 0 := by omega
            rw [if_pos hk] at hrest ⊢
            rw [if_neg hpos]
            omega
          · rw [if_neg hk] at hrest ⊢
            omega

theorem lineStart_append_front {front back : Text} (h : ¬ PartsBreak front back) {k : Nat}
    (hk : k ≤ countLineBreaks front) : lineStart k (front ++ back) = lineStart k front := by
  induction front using induction_on_breaks generalizing k with
  | nil =>
      obtain rfl : k = 0 := Nat.le_zero.mp hk
      rw [lineStart_zero, lineStart_zero]
  | crlf rest ih =>
      cases k with
      | zero => rw [lineStart_zero, lineStart_zero]
      | succ k =>
          rw [countLineBreaks_crlf] at hk
          rw [List.cons_append, List.cons_append, lineStart_crlf, lineStart_crlf,
            ih (not_partsBreak_tail (not_partsBreak_tail h)) (by omega)]
  | lineEnd c rest hc hcut ih =>
      cases k with
      | zero => rw [lineStart_zero, lineStart_zero]
      | succ k =>
          rw [countLineBreaks_break hc hcut] at hk
          rw [List.cons_append, lineStart_break k hc (not_partsBreak_singleton hcut h),
            lineStart_break k hc hcut, ih (not_partsBreak_tail h) (by omega)]
  | char c rest hr hn ih =>
      cases k with
      | zero => rw [lineStart_zero, lineStart_zero]
      | succ k =>
          rw [countLineBreaks_char rest hr hn] at hk
          rw [List.cons_append, lineStart_char k _ hr hn, lineStart_char k _ hr hn,
            ih (not_partsBreak_tail h) hk]

theorem getElem?_splitLines_append {front back line : Text} {k : Nat}
    (h : ¬ PartsBreak front back) (hk : (splitLines back)[k]? = some line) :
    (splitLines (front ++ back))[countLineBreaks front + k]? =
      some ((if k = 0 then openLine front else []) ++ line) := by
  have hback : back ≠ [] := by
    rintro rfl
    simp [splitLines, breakLines, dropLastEmpty] at hk
  have hright : (closedLines front).length ≤ countLineBreaks front + k := by
    rw [length_closedLines]
    exact Nat.le_add_right _ k
  rw [splitLines_append h hback, List.getElem?_append_right hright, length_closedLines,
    Nat.add_sub_cancel_left]
  cases k with
  | zero => simp [hk]
  | succ k => simp [hk]

theorem le_countLineBreaks_of_splitLines {t line : Text} {k : Nat}
    (h : (splitLines t)[k]? = some line) : k ≤ countLineBreaks t := by
  have hlt := (List.getElem?_eq_some_iff.mp (getElem?_breakLines_of_splitLines h)).1
  rw [length_breakLines] at hlt
  omega

end ScriptWeave.Text
