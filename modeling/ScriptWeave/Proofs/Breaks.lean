import Mathlib.Data.List.DropRight
import ScriptWeave.Proofs.Blanks
import ScriptWeave.Proofs.Lines

namespace ScriptWeave.Text

variable {c : Char} {t rest lead : Text} {p : Char → Bool}

theorem normalizeBreaks_crlf (t : Text) :
    normalizeBreaks ('\r' :: '\n' :: t) = '\n' :: normalizeBreaks t := by
  rw [normalizeBreaks]

theorem normalizeBreaks_return (h : ∀ rest, t ≠ '\n' :: rest) :
    normalizeBreaks ('\r' :: t) = '\n' :: normalizeBreaks t := by
  rw [normalizeBreaks, if_pos rfl]
  rintro rest - rfl
  exact h rest rfl

theorem normalizeBreaks_char (t : Text) (hc : c ≠ '\r') :
    normalizeBreaks (c :: t) = c :: normalizeBreaks t := by
  rw [normalizeBreaks, if_neg hc]
  rintro rest rfl -
  exact hc rfl

theorem breaks_induction {motive : Text → Prop} (nil : motive [])
    (crlf : ∀ t, motive t → motive ('\r' :: '\n' :: t))
    (carriage : ∀ t, (∀ rest, t ≠ '\n' :: rest) → motive t → motive ('\r' :: t))
    (char : ∀ c t, c ≠ '\r' → motive t → motive (c :: t)) (t : Text) : motive t := by
  induction t using normalizeBreaks.induct with
  | case1 => exact nil
  | case2 rest ih => exact crlf rest ih
  | case3 c rest hnot ih =>
      by_cases hc : c = '\r'
      · subst hc
        exact carriage rest (fun more hmore => hnot more rfl hmore) ih
      · exact char c rest hc ih

theorem normalizeBreaks_eq_nil_iff : normalizeBreaks t = [] ↔ t = [] := by
  fun_cases normalizeBreaks t <;> simp

theorem exists_of_normalizeBreaks_cons (hc : c ≠ '\n') (h : normalizeBreaks t = c :: rest) :
    ∃ more, t = c :: more ∧ rest = normalizeBreaks more := by
  induction t using breaks_induction with
  | nil => simp [normalizeBreaks] at h
  | crlf t => exact absurd (List.cons.inj h).1.symm hc
  | carriage t ht =>
      rw [normalizeBreaks_return ht] at h
      exact absurd (List.cons.inj h).1.symm hc
  | char d t hd =>
      rw [normalizeBreaks_char t hd, List.cons.injEq] at h
      exact ⟨t, by rw [h.1], h.2.symm⟩

theorem normalizeBreaks_append {front back : Text} (h : ¬ PartsBreak front back) :
    normalizeBreaks (front ++ back) = normalizeBreaks front ++ normalizeBreaks back := by
  induction front using breaks_induction with
  | nil => rfl
  | crlf t ih =>
      rw [List.cons_append, List.cons_append, normalizeBreaks_crlf, normalizeBreaks_crlf,
        ih (not_partsBreak_tail (not_partsBreak_tail h)), List.cons_append]
  | carriage t ht ih =>
      have happend : ∀ rest, t ++ back ≠ '\n' :: rest := by
        intro rest hrest
        cases t with
        | nil => exact h ⟨rfl, by rw [← List.nil_append back, hrest]; rfl⟩
        | cons d t => exact ht t (by rw [(List.cons.inj hrest).1])
      rw [List.cons_append, normalizeBreaks_return happend, normalizeBreaks_return ht,
        ih (not_partsBreak_tail h), List.cons_append]
  | char c t hc ih =>
      rw [List.cons_append, normalizeBreaks_char _ hc, normalizeBreaks_char _ hc,
        ih (not_partsBreak_tail h), List.cons_append]

theorem breakLines_normalizeBreaks (t : Text) : breakLines (normalizeBreaks t) = breakLines t := by
  have hfeed : ∀ rest, ¬ PartsBreak ['\n'] rest := fun rest h => nomatch h.1
  induction t using breaks_induction with
  | nil => rfl
  | crlf t ih =>
      rw [normalizeBreaks_crlf, breakLines_break (.inr rfl) (hfeed _), breakLines_crlf, ih]
  | carriage t ht ih =>
      have hreturn : ¬ PartsBreak ['\r'] t := by
        rintro ⟨-, hhead⟩
        obtain ⟨rest, hrest⟩ := List.head?_eq_some_iff.mp hhead
        exact ht rest hrest
      rw [normalizeBreaks_return ht, breakLines_break (.inr rfl) (hfeed _),
        breakLines_break (.inl rfl) hreturn, ih]
  | char c t hc ih =>
      rw [normalizeBreaks_char t hc]
      by_cases hn : c = '\n'
      · subst hn
        rw [breakLines_break (.inr rfl) (hfeed _), breakLines_break (.inr rfl) (hfeed _), ih]
      · rw [breakLines_char _ hc hn, breakLines_char _ hc hn, ih]

theorem splitLines_normalizeBreaks (t : Text) : splitLines (normalizeBreaks t) = splitLines t := by
  rw [splitLines, breakLines_normalizeBreaks, splitLines]

theorem countLineBreaks_normalizeBreaks (t : Text) :
    countLineBreaks (normalizeBreaks t) = countLineBreaks t := by
  have hlength := congrArg List.length (breakLines_normalizeBreaks t)
  rw [length_breakLines, length_breakLines] at hlength
  exact Nat.succ.inj hlength

theorem dropWhile_normalizeBreaks (hp : p '\r' = p '\n') (t : Text) :
    (normalizeBreaks t).dropWhile p = normalizeBreaks (t.dropWhile p) := by
  induction t using breaks_induction with
  | nil => rfl
  | crlf t ih => cases hn : p '\n' <;> simp [normalizeBreaks_crlf, hp, hn, ih]
  | carriage t ht ih =>
      cases hn : p '\n' <;> simp [normalizeBreaks_return ht, hp, hn, ih]
  | char c t hc ih => cases hn : p c <;> simp [normalizeBreaks_char t hc, hn, ih]

theorem takeWhile_normalizeBreaks (hp : p '\r' = p '\n') (t : Text) :
    (normalizeBreaks t).takeWhile p = normalizeBreaks (t.takeWhile p) := by
  induction t using breaks_induction with
  | nil => rfl
  | crlf t ih => cases hn : p '\n' <;> simp [normalizeBreaks_crlf, hp, hn, ih, normalizeBreaks]
  | carriage t ht ih =>
      have hrun : ∀ rest, t.takeWhile p ≠ '\n' :: rest := by
        intro rest hrest
        have hfront := List.takeWhile_append_dropWhile (p := p) (l := t)
        rw [hrest] at hfront
        exact ht _ hfront.symm
      cases hn : p '\n' <;>
        simp [normalizeBreaks_return ht, hp, hn, ih, normalizeBreaks_return hrun, normalizeBreaks]
  | char c t hc ih =>
      cases hn : p c <;> simp [normalizeBreaks_char, hc, hn, ih, normalizeBreaks]

theorem blank_normalizeBreaks (h : ∀ c ∈ t, isBlank c = true) :
    ∀ c ∈ normalizeBreaks t, isBlank c = true := by
  induction t using breaks_induction with
  | nil => exact h
  | crlf t ih =>
      rw [normalizeBreaks_crlf, List.forall_mem_cons]
      exact ⟨by decide, ih fun c hc => h c (List.mem_cons_of_mem _ (List.mem_cons_of_mem _ hc))⟩
  | carriage t ht ih =>
      rw [normalizeBreaks_return ht, List.forall_mem_cons]
      exact ⟨by decide, ih fun c hc => h c (List.mem_cons_of_mem _ hc)⟩
  | char c t hc ih =>
      rw [normalizeBreaks_char t hc, List.forall_mem_cons]
      exact ⟨h c List.mem_cons_self, ih fun d hd => h d (List.mem_cons_of_mem _ hd)⟩

theorem trimEnd_normalizeBreaks (t : Text) : trimEnd (normalizeBreaks t) = normalizeBreaks (trimEnd t) := by
  obtain ⟨blanks, ht, hblanks⟩ := exists_trimEnd_append t
  have hwhole : ¬ PartsBreak (trimEnd t) blanks := fun h =>
    absurd (isBlank_getLast?_trimEnd h.1) (by decide)
  have hnormalized := normalizeBreaks_append hwhole
  rw [← ht] at hnormalized
  rw [hnormalized, trimEnd_append_of_blank _ (blank_normalizeBreaks hblanks)]
  rcases List.eq_nil_or_concat' (trimEnd t) with hnil | ⟨front, c, hconcat⟩
  · rw [hnil]
    rfl
  · have hc : isBlank c = false :=
      isBlank_getLast?_trimEnd (hconcat ▸ List.getLast?_concat)
    have hlast : ¬ PartsBreak front [c] := by
      rintro ⟨-, hbreak⟩
      rw [List.head?_cons, Option.some.injEq] at hbreak
      exact absurd (hbreak ▸ hc) (by decide)
    have hreturn : c ≠ '\r' := by
      rintro rfl
      exact absurd hc (by decide)
    rw [hconcat, normalizeBreaks_append hlast, normalizeBreaks_char [] hreturn,
      trimEnd_append_cons _ _ hc]
    rfl

theorem pieces_normalizeBreaks (t : Text) :
    ∃ word more more', pieces isBlank t = word :: more ∧
      pieces isBlank (normalizeBreaks t) = word :: more' ∧
      more.filter (· ≠ []) = more'.filter (· ≠ []) := by
  have hcut : ∀ {c : Char} (t : Text), isBlank c = true →
      pieces isBlank (c :: t) = [] :: pieces isBlank t := fun t hc => by rw [pieces, if_pos hc]
  have hkeep : ∀ {more more' : List Text} (word : Text),
      more.filter (· ≠ []) = more'.filter (· ≠ []) →
      (word :: more).filter (· ≠ []) = (word :: more').filter (· ≠ []) := fun word hsame => by
    rw [List.filter_cons, List.filter_cons, hsame]
  induction t using breaks_induction with
  | nil => exact ⟨[], [], [], rfl, rfl, rfl⟩
  | crlf t ih =>
      obtain ⟨word, more, more', ht, hn, hsame⟩ := ih
      rw [normalizeBreaks_crlf, hcut _ (by decide), hcut _ (by decide), hcut _ (by decide), ht, hn]
      exact ⟨[], _, _, rfl, rfl, (List.filter_cons_of_neg (by simp)).trans (hkeep word hsame)⟩
  | carriage t ht ih =>
      obtain ⟨word, more, more', ht', hn, hsame⟩ := ih
      rw [normalizeBreaks_return ht, hcut _ (by decide), hcut _ (by decide), ht', hn]
      exact ⟨[], _, _, rfl, rfl, hkeep word hsame⟩
  | char c t hc ih =>
      obtain ⟨word, more, more', ht, hn, hsame⟩ := ih
      rw [normalizeBreaks_char t hc]
      by_cases hblank : isBlank c = true
      · rw [hcut _ hblank, hcut _ hblank, ht, hn]
        exact ⟨[], _, _, rfl, rfl, hkeep word hsame⟩
      · rw [pieces, pieces, if_neg hblank, if_neg hblank, ht, hn]
        exact ⟨c :: word, more, more', rfl, rfl, hsame⟩

theorem collapseBlanks_normalizeBreaks (t : Text) :
    collapseBlanks (normalizeBreaks t) = collapseBlanks t := by
  obtain ⟨word, more, more', ht, hn, hsame⟩ := pieces_normalizeBreaks t
  rw [collapseBlanks, collapseBlanks, words, words, ht, hn, List.filter_cons, List.filter_cons, hsame]

end ScriptWeave.Text
