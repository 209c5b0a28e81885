import ScriptWeave.Proofs.OutputLines

namespace ScriptWeave.Text

open Header

variable {c : Char}

theorem trim_cons_of_blank (t : Text) (hc : isBlank c = true) : trim (c :: t) = trim t := by
  rw [trim, trim, trimStart, List.dropWhile_cons_of_pos hc, trimStart]

theorem trim_append_of_blank (t : Text) (hc : isBlank c = true) : trim (t ++ [c]) = trim t := by
  have hblank : ∀ d ∈ [c], isBlank d = true := by simpa using hc
  rw [trim, trim, trimStart, trimStart, List.dropWhile_append]
  cases hrest : t.dropWhile isBlank with
  | nil => simp [hc]
  | cons d rest =>
      rw [List.isEmpty_cons, if_neg Bool.false_ne_true]
      exact trimEnd_append_of_blank (d :: rest) hblank

theorem trim_trim (t : Text) : trim (trim t) = trim t := by
  have hparts : Parts isBlank (trimStart t) := parts_dropWhile isBlank t
  have hstart : trimStart (trim t) = trim t := by
    rw [trim]
    cases hrest : trimStart t with
    | nil => rfl
    | cons c rest =>
        have hc : isBlank c = false := hparts c (by rw [hrest]; rfl)
        have hfirst : trimEnd (c :: rest) = c :: trimEnd rest := trimEnd_append_cons [] rest hc
        rw [hfirst]
        exact trimStart_of_parts (parts_cons _ hc)
  conv => lhs; rw [trim, hstart, trim, trimEnd_trimEnd]
  rfl

theorem pieces_append_cut {isCut : Char → Bool} (hc : isCut c = true) (front back : Text) :
    pieces isCut (front ++ c :: back) = pieces isCut front ++ pieces isCut back := by
  induction front with
  | nil => simp [pieces, hc]
  | cons d front ih =>
      obtain ⟨piece, more, hpieces⟩ := List.exists_cons_of_ne_nil (pieces_ne_nil isCut front)
      by_cases hd : isCut d = true
      · simp [pieces, hd, ih]
      · simp [pieces, hd, ih, hpieces]

theorem pieces_append_uncut {isCut : Char → Bool} (hc : isCut c = false) (t : Text) :
    ∃ front last, pieces isCut t = front ++ [last] ∧
      pieces isCut (t ++ [c]) = front ++ [last ++ [c]] := by
  induction t with
  | nil => exact ⟨[], [], rfl, by simp [pieces, hc]⟩
  | cons d t ih =>
      obtain ⟨front, last, hpieces, hlonger⟩ := ih
      by_cases hd : isCut d = true
      · exact ⟨[] :: front, last, by simp [pieces, hd, hpieces], by simp [pieces, hd, hlonger]⟩
      · cases front with
        | nil =>
            exact ⟨[], d :: last, by simp [pieces, hd, hpieces], by simp [pieces, hd, hlonger]⟩
        | cons piece front =>
            exact ⟨(d :: piece) :: front, last, by simp [pieces, hd, hpieces],
              by simp [pieces, hd, hlonger]⟩

def filled (lines : List Text) : List Text := (lines.map trim).filter (· ≠ [])

@[simp] theorem filled_nil : filled [] = [] := rfl

theorem filled_append (lines more : List Text) : filled (lines ++ more) = filled lines ++ filled more := by
  rw [filled, filled, filled, List.map_append, List.filter_append]

theorem filled_cons (line : Text) (lines : List Text) :
    filled (line :: lines) = if trim line = [] then filled lines else trim line :: filled lines := by
  rw [filled, List.map_cons, List.filter_cons]
  by_cases hline : trim line = [] <;> simp [hline, filled]

@[simp] theorem filled_empty_cons (lines : List Text) : filled ([] :: lines) = filled lines :=
  filled_cons [] lines

theorem filled_dropLastEmpty (lines : List Text) : filled (dropLastEmpty lines) = filled lines := by
  fun_induction dropLastEmpty lines with
  | case1 => rfl
  | case2 => rw [filled_empty_cons, filled_nil]
  | case3 line hline => rfl
  | case4 line line' more ih => rw [filled_cons, filled_cons, ih]

def filledLines (t : Text) : List Text := filled (pieces isOutputBreak t)

@[simp] theorem filledLines_nil : filledLines [] = [] := rfl

/-- Breaking at every break character gives the same first line, and behind it differs in empty lines
only, which a carriage return with a line feed behind it leaves between the two. -/
theorem exists_first_line (t : Text) :
    ∃ line lines more, breakOutput t = line :: lines ∧ pieces isOutputBreak t = line :: more ∧
      filled lines = filled more := by
  fun_induction breakOutput t with
  | case1 => exact ⟨[], [], [], rfl, rfl, rfl⟩
  | case2 rest ih =>
      obtain ⟨line, lines, more, hbreak, hpieces, hsame⟩ := ih
      have hreturn : isOutputBreak '\r' = true := rfl
      have hfeed : isOutputBreak '\n' = true := rfl
      refine ⟨[], line :: lines, [] :: line :: more, by rw [hbreak], ?_, ?_⟩
      · simp [pieces, hreturn, hfeed, hpieces]
      · rw [filled_empty_cons, filled_cons, filled_cons, hsame]
  | case3 c rest hnot hc ih =>
      obtain ⟨line, lines, more, hbreak, hpieces, hsame⟩ := ih
      refine ⟨[], line :: lines, line :: more, by rw [hbreak], by simp [pieces, hc, hpieces], ?_⟩
      rw [filled_cons, filled_cons, hsame]
  | case4 c rest hnot hc hnil ih =>
      obtain ⟨line, lines, -, hbreak, -⟩ := ih
      rw [hnil] at hbreak
      cases hbreak
  | case5 c rest hnot hc line lines hcons ih =>
      obtain ⟨line', lines', more, hbreak, hpieces, hsame⟩ := ih
      obtain ⟨rfl, rfl⟩ := List.cons.inj (hcons.symm.trans hbreak)
      exact ⟨c :: line, lines, more, rfl, by simp [pieces, hc, hpieces], hsame⟩

theorem filled_outputLines (t : Text) : filled (outputLines t) = filledLines t := by
  obtain ⟨line, lines, more, hbreak, hpieces, hsame⟩ := exists_first_line t
  rw [outputLines, filled_dropLastEmpty, hbreak, filledLines, hpieces, filled_cons, filled_cons,
    hsame]

theorem filledLines_append_break (hc : isOutputBreak c = true) (front back : Text) :
    filledLines (front ++ c :: back) = filledLines front ++ filledLines back := by
  rw [filledLines, pieces_append_cut hc, filled_append, filledLines, filledLines]

theorem filledLines_cons_of_blank (t : Text) (hc : isBlank c = true) :
    filledLines (c :: t) = filledLines t := by
  by_cases hbreak : isOutputBreak c = true
  · have hapart := filledLines_append_break hbreak [] t
    simpa using hapart
  · obtain ⟨piece, more, hpieces⟩ := List.exists_cons_of_ne_nil (pieces_ne_nil isOutputBreak t)
    have hlonger : pieces isOutputBreak (c :: t) = (c :: piece) :: more := by
      simp [pieces, hbreak, hpieces]
    rw [filledLines, hlonger, filledLines, hpieces, filled_cons, filled_cons,
      trim_cons_of_blank piece hc]

theorem filledLines_append_of_blank (t : Text) (hc : isBlank c = true) :
    filledLines (t ++ [c]) = filledLines t := by
  by_cases hbreak : isOutputBreak c = true
  · rw [filledLines_append_break hbreak, filledLines_nil, List.append_nil]
  · obtain ⟨front, last, hpieces, hlonger⟩ := pieces_append_uncut (Bool.eq_false_iff.mpr hbreak) t
    rw [filledLines, hlonger, filledLines, hpieces, filled_append, filled_append, filled_cons,
      filled_cons, trim_append_of_blank last hc]

theorem filledLines_trimStart (t : Text) : filledLines (trimStart t) = filledLines t := by
  induction t with
  | nil => rfl
  | cons c t ih =>
      cases hc : isBlank c with
      | true => rw [trimStart, List.dropWhile_cons_of_pos hc, filledLines_cons_of_blank t hc, ← ih,
          trimStart]
      | false => rw [trimStart, List.dropWhile_cons_of_neg (by simp [hc])]

theorem filledLines_append_blanks (t : Text) {blanks : Text} (h : ∀ c ∈ blanks, isBlank c = true) :
    filledLines (t ++ blanks) = filledLines t := by
  induction blanks generalizing t with
  | nil => rw [List.append_nil]
  | cons c blanks ih =>
      obtain ⟨hc, hblanks⟩ := List.forall_mem_cons.mp h
      rw [List.append_cons, ih (t ++ [c]) hblanks, filledLines_append_of_blank t hc]

theorem filledLines_trimEnd (t : Text) : filledLines (trimEnd t) = filledLines t := by
  obtain ⟨blanks, ht, hblanks⟩ := exists_trimEnd_append t
  conv => rhs; rw [ht, filledLines_append_blanks _ hblanks]

theorem filledLines_trim (t : Text) : filledLines (trim t) = filledLines t := by
  rw [trim, filledLines_trimEnd, filledLines_trimStart]

theorem filledLines_joinWith (parts : List Text) :
    filledLines (joinWith ['\n'] (parts.filter (· != []))) = parts.flatMap filledLines := by
  induction parts with
  | nil => rfl
  | cons part parts ih =>
      rw [List.flatMap_cons, List.filter_cons, ← ih]
      by_cases hpart : part = []
      · simp [hpart]
      · rw [if_pos (by simpa using hpart)]
        by_cases hmore : parts.filter (· != []) = []
        · rw [hmore, joinWith_singleton, joinWith, filledLines_nil, List.append_nil]
        · have hfeed : isOutputBreak '\n' = true := rfl
          rw [joinWith_cons_of_ne_nil _ _ hmore, List.append_assoc, List.singleton_append,
            filledLines_append_break hfeed]

end ScriptWeave.Text
