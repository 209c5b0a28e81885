import ScriptWeave.Proofs.Header.Concatenation
import ScriptWeave.Proofs.Header.Truncation

namespace ScriptWeave.Header

open Text

/-! ### Trivia within a line -/

def IsInlineComment (k : Text) : Prop :=
  ∃ c, k = '/' :: '*' :: (c ++ ['*', '/']) ∧ (∀ d ∈ c, isLineEnd d = false) ∧ ¬ ['*', '/'] <:+: c

theorem afterInlineCommentEnd?_of_clean {c : Text} (hline : ∀ d ∈ c, isLineEnd d = false)
    (hclean : ¬ ['*', '/'] <:+: c) (rest : Text) :
    afterInlineCommentEnd? (c ++ '*' :: '/' :: rest) = some rest := by
  induction c with
  | nil => rfl
  | cons d c ih =>
      obtain ⟨hd, hmore⟩ := List.forall_mem_cons.mp hline
      rw [List.cons_append, afterInlineCommentEnd?, if_neg (by simp [hd])]
      · exact ih hmore fun hinfix => hclean (List.infix_cons hinfix)
      · rintro more rfl hslash
        cases c with
        | nil => simp at hslash
        | cons e c =>
            obtain ⟨rfl, -⟩ := List.cons.inj hslash
            exact hclean ⟨[], c, rfl⟩

theorem exists_clean_of_afterInlineCommentEnd? {t rest : Text}
    (h : afterInlineCommentEnd? t = some rest) :
    ∃ c, t = c ++ '*' :: '/' :: rest ∧ (∀ d ∈ c, isLineEnd d = false) ∧ ¬ ['*', '/'] <:+: c := by
  induction t using afterInlineCommentEnd?.induct with
  | case1 t =>
      rw [afterInlineCommentEnd?, Option.some.injEq] at h
      exact ⟨[], by rw [h]; rfl, by simp, by simp⟩
  | case2 c t hnot hc =>
      rw [afterInlineCommentEnd?, if_pos hc] at h
      · simp at h
      · exact hnot
  | case3 c t hnot hc ih =>
      rw [afterInlineCommentEnd?, if_neg hc] at h
      · obtain ⟨front, rfl, hline, hclean⟩ := ih h
        refine ⟨c :: front, rfl, List.forall_mem_cons.mpr ⟨by simpa using hc, hline⟩, ?_⟩
        rw [List.infix_cons_iff, not_or]
        refine ⟨?_, hclean⟩
        rintro ⟨more, hmore⟩
        obtain ⟨rfl, hslash⟩ := List.cons.inj hmore
        exact hnot _ rfl (by rw [← hslash]; rfl)
      · exact hnot
  | case4 => simp [afterInlineCommentEnd?] at h

theorem IsInlineComment.afterInlineComment? {k : Text} (h : IsInlineComment k) (t : Text) :
    afterInlineComment? (k ++ t) = some t := by
  obtain ⟨c, rfl, hline, hclean⟩ := h
  have hend := afterInlineCommentEnd?_of_clean hline hclean t
  simpa [Header.afterInlineComment?] using hend

theorem exists_inlineComment {t rest : Text} (h : afterInlineComment? t = some rest) :
    ∃ k, t = k ++ rest ∧ IsInlineComment k := by
  rw [afterInlineComment?.eq_def] at h
  split at h
  · obtain ⟨c, rfl, hline, hclean⟩ := exists_clean_of_afterInlineCommentEnd? h
    exact ⟨_, by simp, c, rfl, hline, hclean⟩
  · simp at h

inductive InlineRun : Text → Prop
  | nil : InlineRun []
  | gap {c : Char} {t : Text} (hc : isInlineGap c = true) (h : InlineRun t) : InlineRun (c :: t)
  | comment {k t : Text} (hk : IsInlineComment k) (h : InlineRun t) : InlineRun (k ++ t)

def StopsInline (t : Text) : Prop := Parts isInlineGap t ∧ afterInlineComment? t = none

theorem skipInlineWithin_gap {c : Char} (fuel : Nat) (t : Text) (hc : isInlineGap c = true) :
    skipInlineWithin fuel (c :: t) = skipInlineWithin fuel t := by
  cases fuel <;> simp only [skipInlineWithin, List.dropWhile_cons_of_pos hc]

theorem skipInlineWithin_comment {k : Text} (fuel : Nat) (t : Text) (hk : IsInlineComment k) :
    skipInlineWithin (fuel + 1) (k ++ t) = skipInlineWithin fuel t := by
  have hstop : (k ++ t).dropWhile isInlineGap = k ++ t := by
    obtain ⟨c, rfl, -⟩ := hk
    rfl
  rw [skipInlineWithin, hstop, hk.afterInlineComment?]

theorem skipInlineWithin_of_stops {t : Text} (fuel : Nat) (h : StopsInline t) :
    skipInlineWithin fuel t = t := by
  have hstop : t.dropWhile isInlineGap = t :=
    (dropWhile_of_parts (List.forall_mem_nil _) h.1 : ([] ++ t).dropWhile isInlineGap = t)
  cases fuel with
  | zero => exact hstop
  | succ fuel => rw [skipInlineWithin, hstop, h.2]

theorem skipInlineWithin_run {run t : Text} (h : InlineRun run) (hstop : StopsInline t) {fuel : Nat}
    (hfuel : (run ++ t).length ≤ fuel) : skipInlineWithin fuel (run ++ t) = t := by
  induction h generalizing fuel with
  | nil => exact skipInlineWithin_of_stops fuel hstop
  | gap hc _ ih =>
      rw [List.cons_append, skipInlineWithin_gap _ _ hc]
      exact ih (Nat.le_of_succ_le hfuel)
  | @comment k u hk _ ih =>
      have hpos : 0 < k.length := by
        obtain ⟨c, rfl, -⟩ := hk
        simp
      rw [List.append_assoc, List.length_append] at hfuel
      obtain ⟨fuel, rfl⟩ := Nat.exists_eq_succ_of_ne_zero (show fuel ≠ 0 by omega)
      rw [List.append_assoc, skipInlineWithin_comment _ _ hk]
      exact ih (by omega)

theorem inlineRun_gaps {gaps run : Text} (hgaps : ∀ c ∈ gaps, isInlineGap c = true)
    (h : InlineRun run) : InlineRun (gaps ++ run) := by
  induction gaps with
  | nil => exact h
  | cons c gaps ih =>
      obtain ⟨hc, hmore⟩ := List.forall_mem_cons.mp hgaps
      exact .gap hc (ih hmore)

theorem exists_inlineRun {fuel : Nat} {t : Text} (hfuel : t.length ≤ fuel) :
    ∃ run, t = run ++ skipInlineWithin fuel t ∧ InlineRun run ∧
      StopsInline (skipInlineWithin fuel t) := by
  induction fuel generalizing t with
  | zero =>
      obtain rfl := List.length_eq_zero_iff.mp (Nat.le_zero.mp hfuel)
      exact ⟨[], rfl, .nil, by simp [Parts, skipInlineWithin], rfl⟩
  | succ fuel ih =>
      have hgaps : ∀ c ∈ t.takeWhile isInlineGap, isInlineGap c = true := consists_takeWhile _ t
      have htext : t = t.takeWhile isInlineGap ++ t.dropWhile isInlineGap :=
        List.takeWhile_append_dropWhile.symm
      rw [skipInlineWithin]
      split
      · rename_i hnone
        refine ⟨t.takeWhile isInlineGap, htext, ?_, parts_dropWhile _ t, hnone⟩
        rw [← List.append_nil (t.takeWhile isInlineGap)]
        exact inlineRun_gaps hgaps .nil
      · rename_i rest hrest
        have hshorter := afterTrivium?_shorter (afterTrivium?_of_inline hrest)
        have hle : (t.dropWhile isInlineGap).length ≤ t.length := (List.dropWhile_suffix _).length_le
        obtain ⟨k, hk, hcomment⟩ := exists_inlineComment hrest
        obtain ⟨run, hrun, hinline, hstop⟩ := ih (show rest.length ≤ fuel by omega)
        refine ⟨t.takeWhile isInlineGap ++ (k ++ run), ?_, ?_, hstop⟩
        · rw [List.append_assoc, List.append_assoc, ← hrun, ← hk]
          exact htext
        · exact inlineRun_gaps hgaps (.comment hcomment hinline)

theorem isBlank_of_isInlineGap {c : Char} (h : isInlineGap c = true) : isBlank c = true :=
  isBlank_of_isGap (isGap_of_isInlineGap h)

theorem InlineRun.trimEnd {run : Text} (h : InlineRun run) : InlineRun (trimEnd run) := by
  induction h with
  | nil => exact .nil
  | @gap c t hc _ ih =>
      rw [trimEnd_cons_of_blank t (isBlank_of_isInlineGap hc)]
      split
      · exact .nil
      · exact .gap hc ih
  | @comment k t hk _ ih =>
      obtain ⟨c, rfl, hclean⟩ := id hk
      have hend : '/' :: '*' :: (c ++ ['*', '/']) ++ t = ('/' :: '*' :: (c ++ ['*'])) ++ '/' :: t := by
        simp
      rw [hend, trimEnd_append_cons _ _ (by decide)]
      have hrun := InlineRun.comment hk ih
      rwa [show '/' :: '*' :: (c ++ ['*', '/']) ++ Text.trimEnd t =
        ('/' :: '*' :: (c ++ ['*'])) ++ '/' :: Text.trimEnd t by simp] at hrun

/-! ### The header alone -/

theorem before_nil (t : Text) : before t [] = t := by
  simp [before]

theorem exists_trailing (t : Text) :
    ∃ lead brk, t = lead ++ (brk ++ skipTrailing t) ∧ AtMostOneBreak brk ∧
      skipTrailing (trimEnd lead) = [] := by
  obtain ⟨run, hrun, hinline, hstop⟩ := exists_inlineRun (Nat.le_refl t.length)
  rw [skipTrailing]
  generalize skipInlineWithin t.length t = behind at hrun hstop ⊢
  obtain ⟨brk, hbrk, hone, -⟩ := exists_skipBreak (skipLineComment behind)
  by_cases hcomment : ∃ more, behind = '/' :: '/' :: more
  -- A line comment lasts to the end of the line, and trimmed it is still one.
  · obtain ⟨more, rfl⟩ := hcomment
    have hline : ∀ c ∈ more.takeWhile fun c => !isLineEnd c, isLineEnd c = false :=
      fun c hc => by simpa using List.mem_takeWhile_imp hc
    have hmore : more = (more.takeWhile fun c => !isLineEnd c) ++ restOfLine more :=
      List.takeWhile_append_dropWhile.symm
    generalize (more.takeWhile fun c => !isLineEnd c) = comment at hline hmore
    refine ⟨run ++ '/' :: '/' :: comment, brk, ?_, hone, ?_⟩
    · have hskip : skipLineComment ('/' :: '/' :: more) = restOfLine more := rfl
      rw [← hbrk, hskip, List.append_assoc, List.cons_append, List.cons_append, ← hmore]
      exact hrun
    · have htrim : trimEnd (run ++ '/' :: '/' :: comment) = run ++ '/' :: '/' :: trimEnd comment := by
        have hslash := trimEnd_append_cons (run ++ ['/']) comment (c := '/') (by decide)
        simpa using hslash
      have hrest : restOfLine (trimEnd comment) = [] := by
        obtain ⟨blanks, hsplit, -⟩ := exists_trimEnd_append comment
        refine List.dropWhile_eq_nil_iff.mpr fun c hc => ?_
        rw [hline c (hsplit ▸ List.mem_append_left _ hc)]
        rfl
      have hstop' : StopsInline ('/' :: '/' :: trimEnd comment) := ⟨parts_cons _ (by decide), rfl⟩
      rw [htrim, skipTrailing, skipInlineWithin_run hinline hstop' (Nat.le_refl _), skipLineComment,
        hrest]
      rfl
  · have hnone : skipLineComment behind = behind := by
      rw [skipLineComment.eq_def]
      split
      · exact absurd ⟨_, rfl⟩ hcomment
      · rfl
    rw [hnone] at hbrk ⊢
    refine ⟨run, brk, by rw [← hbrk, ← hrun], hone, ?_⟩
    have hskip := skipInlineWithin_run hinline.trimEnd (t := []) ⟨by simp [Parts], rfl⟩ (Nat.le_refl _)
    rw [List.append_nil] at hskip
    rw [skipTrailing, hskip]
    rfl

theorem split_header {t : Text} {s : Split} (h : split t = .ok s) :
    split s.header = .ok ⟨s.header, [], countLineBreaks s.header, s.directives⟩ := by
  obtain ⟨ds, rest, hread⟩ := exists_declarations h
  by_cases hds : ds = []
  · subst hds
    obtain rfl := split_bare h hread
    rfl
  · rw [split_of_declarations hread hds, Except.ok.injEq] at h
    subst h
    obtain ⟨lead, brk, hrest, hone, htrailing⟩ := exists_trailing rest
    obtain ⟨hnil, -⟩ | ⟨-, front, rfl⟩ := declarationsWithin_ok hread
    · exact absurd hnil hds
    have hbefore : before (front ++ ';' :: rest) (skipTrailing rest) =
        front ++ ';' :: (lead ++ brk) := by
      have htext : front ++ ';' :: rest = front ++ ';' :: (lead ++ brk) ++ skipTrailing rest := by
        conv => lhs; rw [hrest]
        simp
      rw [htext, before_append]
    have hheader : trimEnd (front ++ ';' :: (lead ++ brk)) = front ++ [';'] ++ trimEnd lead := by
      rw [header_of_semicolon front hone]
      simp
    have hread' : declarations (front ++ [';'] ++ trimEnd lead) = .ok (ds, trimEnd lead) := by
      have hexchange := declarations_exchange (u := front ++ [';']) (t := rest) (by simpa using hread)
        (trimEnd lead)
      have hbare : readDeclaration? (skipTrivia (trimEnd lead)) = none := by
        rw [← skipTrivia_skipTrailing, htrailing]
        rfl
      rw [hexchange, declarations_of_none hbare, prepend, List.append_nil]
    have htrim : trimEnd (front ++ [';'] ++ trimEnd lead) = front ++ [';'] ++ trimEnd lead := by
      rw [← hheader, trimEnd_trimEnd]
    rw [hbefore, hheader, split_of_declarations hread' hds, htrailing, before_nil, htrim]

/-! ### The body alone -/

theorem readDeclaration?_behind {t rest : Text} {ds : List Text}
    (h : declarations t = .ok (ds, rest)) : readDeclaration? (skipTrivia rest) = none := by
  induction t using declarations_induction generalizing ds with
  | step t ih =>
      cases hread : readDeclaration? (skipTrivia t) with
      | none =>
          rw [declarations_of_none hread, Except.ok.injEq, Prod.mk.injEq] at h
          rwa [← h.2]
      | some result =>
          cases result with
          | error fault =>
              rw [declarations_of_error hread] at h
              simp at h
          | ok after =>
              rw [declarations_of_ok hread, prepend_eq_ok_iff] at h
              obtain ⟨ds', hmore, -⟩ := h
              exact ih after hread hmore

theorem split_body {t : Text} {s : Split} (h : split t = .ok s) :
    split s.body = .ok ⟨[], s.body, 0, []⟩ := by
  obtain ⟨ds, rest, hread⟩ := exists_declarations h
  have hbehind := readDeclaration?_behind hread
  have hbody : skipTrivia s.body = skipTrivia rest := by
    by_cases hds : ds = []
    · subst hds
      rcases declarationsWithin_ok hread with ⟨-, rfl⟩ | ⟨hne, -⟩
      · rw [split_bare h hread]
      · exact absurd rfl hne
    · rw [split_of_declarations hread hds, Except.ok.injEq] at h
      rw [← h, skipTrivia_skipTrailing]
  rw [← hbody] at hbehind
  rw [split, declarations_of_none hbehind]

/-- Either half of a split is split into itself: the header with its directives and no body, the body
with no directives and no header. -/
theorem split_halves {t : Text} {s : Split} (h : split t = .ok s) :
    split s.header = .ok ⟨s.header, [], countLineBreaks s.header, s.directives⟩ ∧
      split s.body = .ok ⟨[], s.body, 0, []⟩ :=
  ⟨split_header h, split_body h⟩

theorem split_halves_comment_behind :
    split "#r \"a\"\nusing A; /* b */ // c \n /* d\n */ x" =
        .ok ⟨"#r \"a\"\nusing A; /* b */ // c", " /* d\n */ x", 2, ["using A;"]⟩ ∧
      split "#r \"a\"\nusing A; /* b */ // c" =
        .ok ⟨"#r \"a\"\nusing A; /* b */ // c", [], 1, ["using A;"]⟩ ∧
      split " /* d\n */ x" = .ok ⟨[], " /* d\n */ x", 0, []⟩ := by
  have hsplit : split "#r \"a\"\nusing A; /* b */ // c \n /* d\n */ x" =
      .ok ⟨"#r \"a\"\nusing A; /* b */ // c", " /* d\n */ x", 2, ["using A;"]⟩ := rfl
  exact ⟨hsplit, split_halves hsplit⟩

end ScriptWeave.Header
