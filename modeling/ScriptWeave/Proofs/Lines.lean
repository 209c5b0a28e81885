import Mathlib.Data.List.Basic
import ScriptWeave.Text.Lines

/-!
Lines of a text that is cut in two. Unless the cut parts a carriage return from its line feed, the
breaks of the parts add up, the lines of the front part are lines of the whole up to the last one,
which may be cut short, and those of the back part follow, the first one perhaps cut short too.
-/

namespace ScriptWeave.Text

def PartsBreak (front back : Text) : Prop := front.getLast? = some '\r' ∧ back.head? = some '\n'

def closedLines (t : Text) : List Text := (breakLines t).dropLast

/-- What stands behind the last break. -/
def openLine (t : Text) : Text := (breakLines t).getLast (breakLines_ne_nil t)

theorem closedLines_append_openLine (t : Text) : closedLines t ++ [openLine t] = breakLines t :=
  List.dropLast_append_getLast (breakLines_ne_nil t)

theorem length_closedLines (t : Text) : (closedLines t).length = countLineBreaks t := by
  simp [closedLines, length_breakLines]

theorem breakLines_crlf (t : Text) : breakLines ('\r' :: '\n' :: t) = [] :: breakLines t := by
  rw [breakLines]

theorem breakLines_break {c : Char} {t : Text} (hc : c = '\r' ∨ c = '\n')
    (h : ¬ PartsBreak [c] t) : breakLines (c :: t) = [] :: breakLines t := by
  rw [breakLines]
  · simp [hc]
  · rintro rest rfl rfl
    exact h ⟨rfl, rfl⟩

theorem breakLines_char {c : Char} (t : Text) (hr : c ≠ '\r') (hn : c ≠ '\n') :
    breakLines (c :: t) = (breakLines t).modifyHead (c :: ·) := by
  rw [breakLines]
  · cases ht : breakLines t with
    | nil => exact absurd ht (breakLines_ne_nil t)
    | cons line more => simp [hr, hn]
  · rintro rest rfl rfl
    exact absurd rfl hr

theorem closedLines_eq {t last : Text} {init : List Text} (h : breakLines t = init ++ [last]) :
    closedLines t = init := by
  simp [closedLines, h]

theorem openLine_eq {t last : Text} {init : List Text} (h : breakLines t = init ++ [last]) :
    openLine t = last := by
  simp [openLine, h]

/-- Induction along the lines of a text: two characters that are one break, a break of one
character, and a character that stands on a line. -/
theorem induction_on_breaks {motive : Text → Prop} (nil : motive [])
    (crlf : ∀ rest, motive rest → motive ('\r' :: '\n' :: rest))
    (lineEnd : ∀ c rest, (c = '\r' ∨ c = '\n') → ¬ PartsBreak [c] rest → motive rest →
      motive (c :: rest))
    (char : ∀ c rest, c ≠ '\r' → c ≠ '\n' → motive rest → motive (c :: rest)) (t : Text) :
    motive t := by
  induction t using breakLines.induct with
  | case1 => exact nil
  | case2 rest ih => exact crlf rest ih
  | case3 c rest hnot hc ih =>
      refine lineEnd c rest hc ?_ ih
      rintro ⟨hr, hn⟩
      obtain ⟨more, rfl⟩ := List.head?_eq_some_iff.mp hn
      exact hnot more (by simpa using hr) rfl
  | case4 c rest hnot hc hnil ih => exact absurd hnil (breakLines_ne_nil rest)
  | case5 c rest hnot hc line more hcons ih =>
      exact char c rest (not_or.mp hc).1 (not_or.mp hc).2 ih

/-! ### One step along the lines -/

theorem countLineBreaks_crlf (t : Text) :
    countLineBreaks ('\r' :: '\n' :: t) = countLineBreaks t + 1 := by
  rw [countLineBreaks]

theorem countLineBreaks_break {c : Char} {t : Text} (hc : c = '\r' ∨ c = '\n')
    (h : ¬ PartsBreak [c] t) : countLineBreaks (c :: t) = countLineBreaks t + 1 := by
  rw [countLineBreaks, if_pos hc]
  rintro rest rfl rfl
  exact h ⟨rfl, rfl⟩

theorem countLineBreaks_char {c : Char} (t : Text) (hr : c ≠ '\r') (hn : c ≠ '\n') :
    countLineBreaks (c :: t) = countLineBreaks t := by
  rw [countLineBreaks, if_neg (by simp [hr, hn])]
  rintro rest rfl rfl
  exact absurd rfl hr

theorem breakLines_crlf_eq (t : Text) :
    breakLines ('\r' :: '\n' :: t) = ([] :: closedLines t) ++ [openLine t] := by
  rw [breakLines_crlf, List.cons_append, closedLines_append_openLine]

theorem closedLines_crlf (t : Text) : closedLines ('\r' :: '\n' :: t) = [] :: closedLines t :=
  closedLines_eq (breakLines_crlf_eq t)

theorem openLine_crlf (t : Text) : openLine ('\r' :: '\n' :: t) = openLine t :=
  openLine_eq (breakLines_crlf_eq t)

theorem breakLines_break_eq {c : Char} {t : Text} (hc : c = '\r' ∨ c = '\n')
    (h : ¬ PartsBreak [c] t) : breakLines (c :: t) = ([] :: closedLines t) ++ [openLine t] := by
  rw [breakLines_break hc h, List.cons_append, closedLines_append_openLine]

theorem closedLines_break {c : Char} {t : Text} (hc : c = '\r' ∨ c = '\n')
    (h : ¬ PartsBreak [c] t) : closedLines (c :: t) = [] :: closedLines t :=
  closedLines_eq (breakLines_break_eq hc h)

theorem openLine_break {c : Char} {t : Text} (hc : c = '\r' ∨ c = '\n')
    (h : ¬ PartsBreak [c] t) : openLine (c :: t) = openLine t :=
  openLine_eq (breakLines_break_eq hc h)

theorem breakLines_char_eq {c : Char} (t : Text) (hr : c ≠ '\r') (hn : c ≠ '\n') :
    breakLines (c :: t) = (closedLines t).modifyHead (c :: ·) ++
      [if countLineBreaks t = 0 then c :: openLine t else openLine t] := by
  rw [breakLines_char t hr hn, ← closedLines_append_openLine, ← length_closedLines]
  cases closedLines t with
  | nil => simp
  | cons line more => simp

theorem closedLines_char {c : Char} (t : Text) (hr : c ≠ '\r') (hn : c ≠ '\n') :
    closedLines (c :: t) = (closedLines t).modifyHead (c :: ·) :=
  closedLines_eq (breakLines_char_eq t hr hn)

theorem openLine_char {c : Char} (t : Text) (hr : c ≠ '\r') (hn : c ≠ '\n') :
    openLine (c :: t) = if countLineBreaks t = 0 then c :: openLine t else openLine t :=
  openLine_eq (breakLines_char_eq t hr hn)

/-! ### Two parts -/

theorem not_partsBreak_tail {c : Char} {front back : Text} (h : ¬ PartsBreak (c :: front) back) :
    ¬ PartsBreak front back := by
  rintro ⟨hr, hn⟩
  cases front with
  | nil => simp at hr
  | cons d front => exact h ⟨by simpa using hr, hn⟩

theorem not_partsBreak_singleton {c : Char} {front back : Text} (hfront : ¬ PartsBreak [c] front)
    (h : ¬ PartsBreak (c :: front) back) : ¬ PartsBreak [c] (front ++ back) := by
  rintro ⟨hr, hn⟩
  cases front with
  | nil => exact h ⟨hr, hn⟩
  | cons d front => exact hfront ⟨hr, by simpa using hn⟩

theorem breakLines_append {front back : Text} (h : ¬ PartsBreak front back) :
    breakLines (front ++ back) =
      closedLines front ++ (breakLines back).modifyHead (openLine front ++ ·) := by
  induction front using induction_on_breaks with
  | nil =>
      have hclosed : closedLines [] = [] := rfl
      have hopen : openLine [] = [] := rfl
      rw [hclosed, hopen, List.nil_append, List.nil_append]
      cases breakLines back <;> simp
  | crlf rest ih =>
      rw [List.cons_append, List.cons_append, breakLines_crlf,
        ih (not_partsBreak_tail (not_partsBreak_tail h)), closedLines_crlf, openLine_crlf,
        List.cons_append]
  | lineEnd c rest hc hcut ih =>
      rw [List.cons_append, breakLines_break hc (not_partsBreak_singleton hcut h),
        ih (not_partsBreak_tail h), closedLines_break hc hcut, openLine_break hc hcut,
        List.cons_append]
  | char c rest hr hn ih =>
      rw [List.cons_append, breakLines_char _ hr hn, ih (not_partsBreak_tail h),
        closedLines_char rest hr hn, openLine_char rest hr hn, ← length_closedLines]
      -- The character goes in front of the first line, on which the cut may be.
      cases closedLines rest with
      | nil => simp [Function.comp_def]
      | cons line more => simp

theorem countLineBreaks_append {front back : Text} (h : ¬ PartsBreak front back) :
    countLineBreaks (front ++ back) = countLineBreaks front + countLineBreaks back := by
  have hlength := congrArg List.length (breakLines_append h)
  rw [List.length_append, List.length_modifyHead, length_closedLines, length_breakLines,
    length_breakLines] at hlength
  omega

theorem dropLastEmpty_append (front : List Text) {back : List Text} (h : back ≠ []) :
    dropLastEmpty (front ++ back) = front ++ dropLastEmpty back := by
  induction front with
  | nil => rfl
  | cons line front ih =>
      cases hrest : front ++ back with
      | nil => exact absurd (List.append_eq_nil_iff.mp hrest).2 h
      | cons line' more =>
          rw [List.cons_append, hrest, dropLastEmpty, ← hrest, ih, List.cons_append]

theorem splitLines_eq (t : Text) :
    splitLines t = closedLines t ++ if openLine t = [] then [] else [openLine t] := by
  rw [splitLines, ← closedLines_append_openLine t, dropLastEmpty_append _ (by simp), dropLastEmpty]

theorem breakLines_of_countLineBreaks {t : Text} (h : countLineBreaks t = 0) :
    breakLines t = [t] := by
  induction t using induction_on_breaks with
  | nil => rfl
  | crlf rest ih => simp [countLineBreaks_crlf] at h
  | lineEnd c rest hc hcut ih => simp [countLineBreaks_break hc hcut] at h
  | char c rest hr hn ih =>
      rw [countLineBreaks_char rest hr hn] at h
      rw [breakLines_char _ hr hn, ih h, List.modifyHead_cons]

theorem countLineBreaks_eq_zero {t : Text} (h : ∀ c ∈ t, c ≠ '\r' ∧ c ≠ '\n') :
    countLineBreaks t = 0 := by
  induction t with
  | nil => rfl
  | cons c t ih =>
      have hc := h c List.mem_cons_self
      rw [countLineBreaks]
      · simp [hc, ih fun d hd => h d (List.mem_cons_of_mem c hd)]
      · rintro rest rfl
        exact absurd rfl hc.1

theorem closedLines_of_countLineBreaks {t : Text} (h : countLineBreaks t = 0) :
    closedLines t = [] :=
  closedLines_eq (by simpa using breakLines_of_countLineBreaks h)

theorem openLine_of_countLineBreaks {t : Text} (h : countLineBreaks t = 0) : openLine t = t :=
  openLine_eq (by rw [breakLines_of_countLineBreaks h, List.nil_append])

theorem breakLines_ne_singleton_nil {t : Text} (h : t ≠ []) : breakLines t ≠ [[]] := by
  intro hb
  have hcount : countLineBreaks t = 0 := by
    have hlength := length_breakLines t
    rw [hb] at hlength
    simpa using hlength.symm
  exact h (by simpa [hb] using breakLines_of_countLineBreaks hcount)

theorem splitLines_ne_nil {t : Text} (h : t ≠ []) : splitLines t ≠ [] := by
  intro hnil
  rw [splitLines_eq, List.append_eq_nil_iff] at hnil
  have hopen : openLine t = [] := by
    by_contra hne
    simp [hne] at hnil
  apply breakLines_ne_singleton_nil h
  rw [← closedLines_append_openLine, hnil.1, hopen, List.nil_append]

theorem dropLastEmpty_modifyHead (lead : Text) {lines : List Text} (h : lines ≠ [[]]) :
    dropLastEmpty (lines.modifyHead (lead ++ ·)) =
      (dropLastEmpty lines).modifyHead (lead ++ ·) := by
  cases lines with
  | nil => rfl
  | cons line more =>
      cases more with
      | nil =>
          have hline : line ≠ [] := fun hnil => h (by rw [hnil])
          simp [dropLastEmpty, hline]
      | cons line' more => simp [dropLastEmpty]

theorem splitLines_append {front back : Text} (h : ¬ PartsBreak front back) (hback : back ≠ []) :
    splitLines (front ++ back) =
      closedLines front ++ (splitLines back).modifyHead (openLine front ++ ·) := by
  have hne : (breakLines back).modifyHead (openLine front ++ ·) ≠ [] := by
    simpa using breakLines_ne_nil back
  rw [splitLines, breakLines_append h, dropLastEmpty_append _ hne,
    dropLastEmpty_modifyHead _ (breakLines_ne_singleton_nil hback), splitLines]

theorem length_splitLines_append {front back : Text} (h : ¬ PartsBreak front back)
    (hback : back ≠ []) :
    (splitLines (front ++ back)).length = countLineBreaks front + (splitLines back).length := by
  rw [splitLines_append h hback, List.length_append, List.length_modifyHead, length_closedLines]

theorem splitLines_append_back {front back line : Text} {k : Nat} (h : ¬ PartsBreak front back)
    (hk : (splitLines back)[k]? = some line) :
    ∃ lead, (splitLines (front ++ back))[countLineBreaks front + k]? = some (lead ++ line) ∧
      (k ≠ 0 → lead = []) := by
  have hback : back ≠ [] := by
    rintro rfl
    simp [splitLines, breakLines, dropLastEmpty] at hk
  have hright : (closedLines front).length ≤ countLineBreaks front + k := by
    rw [length_closedLines]
    exact Nat.le_add_right _ k
  rw [splitLines_append h hback, List.getElem?_append_right hright, length_closedLines,
    Nat.add_sub_cancel_left]
  cases k with
  | zero => exact ⟨openLine front, by simp [hk], fun hz => absurd rfl hz⟩
  | succ k => exact ⟨[], by simp [hk], fun _ => rfl⟩

theorem splitLines_append_front {front back line : Text} {k : Nat} (h : ¬ PartsBreak front back)
    (hk : (splitLines front)[k]? = some line) :
    ∃ rest, (splitLines (front ++ back))[k]? = some (line ++ rest) ∧
      (k + 1 < (splitLines front).length → rest = []) := by
  cases back with
  | nil => exact ⟨[], by simpa using hk, fun _ => rfl⟩
  | cons c back =>
      rw [splitLines_append h (by simp)]
      rw [splitLines_eq front] at hk ⊢
      by_cases hclosed : k < (closedLines front).length
      · rw [List.getElem?_append_left hclosed] at hk ⊢
        exact ⟨[], by simpa using hk, fun _ => rfl⟩
      · rw [List.getElem?_append_right (by omega)] at hk ⊢
        by_cases hopen : openLine front = []
        · simp [hopen] at hk
        · rw [if_neg hopen] at hk ⊢
          obtain ⟨hlt, hline⟩ := List.getElem?_eq_some_iff.mp hk
          rw [List.getElem_singleton] at hline
          rw [List.length_singleton, Nat.lt_one_iff] at hlt
          subst hline
          cases hlines : splitLines (c :: back) with
          | nil => exact absurd hlines (splitLines_ne_nil (by simp))
          | cons first more =>
              refine ⟨first, by simp [hlt], fun hlast => ?_⟩
              rw [List.length_append, List.length_singleton] at hlast
              omega

theorem openLine_ne_nil {t : Text} {c : Char} (h : t.getLast? = some c) (hr : c ≠ '\r')
    (hn : c ≠ '\n') : openLine t ≠ [] := by
  obtain ⟨front, rfl⟩ := List.getLast?_eq_some_iff.mp h
  have hcut : ¬ PartsBreak front [c] := by
    rintro ⟨-, hhead⟩
    simp [hn] at hhead
  have hlines : breakLines (front ++ [c]) = closedLines front ++ [openLine front ++ [c]] := by
    rw [breakLines_append hcut, breakLines_char [] hr hn]
    rfl
  rw [openLine_eq hlines]
  simp

end ScriptWeave.Text
