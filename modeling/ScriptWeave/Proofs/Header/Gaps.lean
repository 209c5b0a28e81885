import ScriptWeave.Proofs.Header.Acceptance
import ScriptWeave.Proofs.Header.Halves

namespace ScriptWeave.Header

open Text

/-- A block comment without line breaks, and any blanks around it. -/
def IsSpacedComment (t : Text) : Prop :=
  ∃ b k b', t = b ++ (k ++ b') ∧ Consists isInlineGap b ∧ Consists isInlineGap b' ∧
    IsInlineComment k

theorem IsSpacedComment.inlineRun {t : Text} (h : IsSpacedComment t) : InlineRun t := by
  obtain ⟨b, k, b', rfl, hb, hb', hk⟩ := h
  refine inlineRun_gaps hb (.comment hk ?_)
  rw [← List.append_nil b']
  exact inlineRun_gaps hb' .nil

theorem IsSpacedComment.exists_slash {t : Text} (h : IsSpacedComment t) :
    ∃ b more, t = b ++ '/' :: more ∧ Consists isBlank b := by
  obtain ⟨b, k, b', rfl, hb, -, c, rfl, -⟩ := h
  exact ⟨b, _, rfl, fun d hd => isBlank_of_isInlineGap (hb d hd)⟩

theorem InlineRun.skipTrivia_append {run : Text} (h : InlineRun run) (t : Text) :
    skipTrivia (run ++ t) = skipTrivia t := by
  induction h with
  | nil => rfl
  | gap hc _ ih => rw [List.cons_append, skipTrivia_of_gap _ (isGap_of_isInlineGap hc), ih]
  | comment hk _ ih =>
      rw [List.append_assoc, skipTrivia_of_some (afterTrivium?_of_inline (hk.afterInlineComment? _)),
        ih]

theorem InlineRun.isLineEnd {run : Text} (h : InlineRun run) : ∀ c ∈ run, isLineEnd c = false := by
  induction h with
  | nil => simp
  | gap hc _ ih => exact List.forall_mem_cons.mpr ⟨isLineEnd_of_isInlineGap hc, ih⟩
  | comment hk _ ih =>
      obtain ⟨c, rfl, hline, -⟩ := hk
      refine List.forall_mem_append.mpr ⟨?_, ih⟩
      simp only [List.forall_mem_cons, List.forall_mem_append]
      exact ⟨rfl, rfl, hline, rfl, rfl, by simp⟩

theorem restOfLine_append_of_clean {u : Text} (h : ∀ c ∈ u, isLineEnd c = false) (t : Text) :
    restOfLine (u ++ t) = restOfLine t :=
  List.dropWhile_append_of_pos fun c hc => by simp [h c hc]

theorem clean_of_restOfLine {u : Text} (h : restOfLine u = []) : ∀ c ∈ u, isLineEnd c = false := by
  intro c hc
  simpa using List.dropWhile_eq_nil_iff.mp h c hc

theorem afterTrivium?_append_ways {u rest : Text} (h : afterTrivium? u = some rest) :
    (∀ t, afterTrivium? (u ++ t) = some (rest ++ t)) ∨
      ∀ t, afterTrivium? (u ++ t) = some (restOfLine t) := by
  by_cases hrest : rest = []
  · subst hrest
    rw [afterTrivium?.eq_def] at h
    split at h
    · rw [Option.some.injEq] at h
      exact .inr fun t => congrArg some (restOfLine_append_of_clean (clean_of_restOfLine h) t)
    · exact .inl fun t => afterCommentEnd?_append h t
    · rw [Option.some.injEq] at h
      exact .inr fun t => congrArg some (restOfLine_append_of_clean (clean_of_restOfLine h) t)
    · rename_i c u _ _ _
      split at h
      · rename_i hgap
        rw [Option.some.injEq] at h
        subst h
        exact .inl fun t => afterTrivium?_of_isGap t hgap
      · simp at h
    · simp at h
  · exact .inl fun t => afterTrivium?_append h (.inl hrest) t

theorem skipTrivia_insert {gap run : Text} (hgap : skipTrivia gap = []) (hrun : InlineRun run)
    (back : Text) :
    skipTrivia (gap ++ (run ++ back)) = skipTrivia (gap ++ back) ∧
      skipTrivia (gap ++ back) <:+ back := by
  induction gap using trivia_induction with
  | stop gap hstop =>
      rw [skipTrivia_of_none hstop] at hgap
      subst hgap
      exact ⟨hrun.skipTrivia_append back, skipTrivia_suffix back⟩
  | step gap rest hstep ih =>
      rcases afterTrivium?_append_ways hstep with hleft | hline
      · rw [skipTrivia_of_some (hleft _), skipTrivia_of_some (hleft _)]
        exact ih (by rw [← skipTrivia_of_some hstep, hgap])
      · rw [skipTrivia_of_some (hline _), skipTrivia_of_some (hline _),
          restOfLine_append_of_clean hrun.isLineEnd]
        exact ⟨rfl, (skipTrivia_suffix _).trans (restOfLine_suffix back)⟩

theorem Terminal.Matches.exists_text {k : Terminal} {t rest : Text} (h : k.Matches t rest) :
    ∃ w, t = w ++ rest ∧ w ≠ [] ∧ ∀ u, afterTrivium? (w ++ u) = none := by
  have hword (c : Char) (w : Text) (hc : isWordChar c = true) (ht : t = (c :: w) ++ rest) :
      ∃ w, t = w ++ rest ∧ w ≠ [] ∧ ∀ u, afterTrivium? (w ++ u) = none :=
    ⟨c :: w, ht, by simp, fun u => afterTrivium?_of_isWordChar _ hc⟩
  have htoken (hk : k.IsInner) :
      ∃ w, t = w ++ rest ∧ w ≠ [] ∧ ∀ u, afterTrivium? (w ++ u) = none := by
    obtain ⟨token, hread, -⟩ := (matches_iff hk).mp h
    obtain ⟨w, rfl⟩ := readToken?_suffix hread
    have hcut : readToken? w = some (token, []) := readToken?_of_append (t := rest) hread
    refine ⟨w, rfl, ?_, afterTrivium?_of_token hcut⟩
    rintro rfl
    simp [readToken?, readName?, readSymbol?] at hcut
  cases k with
  | usingWord => exact hword _ _ (by decide) (afterUsing?_eq_some_iff.mp (after?_usingWord_iff.mp h)).1
  | globalWord =>
      exact hword _ _ (by decide) (afterGlobal?_eq_some_iff.mp (after?_globalWord_iff.mp h)).1
  | externWord =>
      exact hword _ _ (by decide) (afterExtern?_eq_some_iff.mp (after?_externWord_iff.mp h)).1
  | _ => exact htoken trivial

theorem Terminal.Matches.skipTrivia_eq {k : Terminal} {t here behind : Text}
    (h : k.Matches here behind) (htrivia : Trivia t here) : skipTrivia t = here := by
  obtain ⟨w, rfl, -, hstop⟩ := h.exists_text
  exact (trivia_stop_iff (hstop behind)).mp htrivia

theorem Lexes.append {previous : Terminal} {t mid after : Text} {ks ks' : List Terminal}
    (h : Lexes previous t ks mid)
    (h' : Lexes ((previous :: ks).getLast (List.cons_ne_nil previous ks)) mid ks' after) :
    Lexes previous t (ks ++ ks') after := by
  induction h with
  | done previous t => exact h'
  | more htrivia hmatched hstatic _ ih =>
      exact .more htrivia hmatched hstatic (ih (by simpa using h'))

theorem Lexes.suffix {previous : Terminal} {t rest : Text} {ks : List Terminal}
    (h : Lexes previous t ks rest) : rest <:+ t := by
  induction h with
  | done previous t => exact List.suffix_refl t
  | @more _ _ t _ _ _ _ htrivia hmatched _ _ ih =>
      obtain ⟨w, hhere, -, -⟩ := hmatched.exists_text
      have hskip := hmatched.skipTrivia_eq htrivia
      exact (ih.trans ⟨w, hhere.symm⟩).trans (hskip ▸ skipTrivia_suffix t)

theorem Lexes.of_skipTrivia_eq {previous : Terminal} {t t' rest : Text} {ks : List Terminal}
    (h : Lexes previous t ks rest) (hks : ks ≠ []) (hskip : skipTrivia t' = skipTrivia t) :
    Lexes previous t' ks rest := by
  cases h with
  | done => exact absurd rfl hks
  | more htrivia hmatched hstatic hmore =>
      have htrivia' := trivia_skipTrivia t'
      rw [hskip, hmatched.skipTrivia_eq htrivia] at htrivia'
      exact .more htrivia' hmatched hstatic hmore

theorem readToken?_exchange {w y mid mid' : Text} {token : Token}
    (h : readToken? (w ++ (y ++ mid)) = some (token, y ++ mid)) (hmid : Parts isWordChar mid') :
    readToken? (w ++ (y ++ mid')) = some (token, y ++ mid') := by
  cases token with
  | word name =>
      rw [readToken?_word_iff, readName?_eq_some_iff] at h ⊢
      obtain ⟨htext, hname, hparts⟩ := h
      refine ⟨by rw [List.append_cancel_right htext], hname, ?_⟩
      cases y with
      | nil => exact hmid
      | cons c y => exact parts_cons _ (hparts c rfl)
  | symbol s =>
      rw [readToken?_symbol_iff] at h ⊢
      rw [List.append_cancel_right h]

theorem Lexes.exists_first {previous k : Terminal} {y mid : Text} {ks : List Terminal}
    (h : Lexes previous (y ++ mid) (k :: ks) mid) :
    ∃ w z, w ++ z <:+ y ∧ (∀ u, afterTrivium? (w ++ u) = none) ∧
      (∀ u, skipTrivia (y ++ u) = w ++ (z ++ u)) ∧ k.Matches (w ++ (z ++ mid)) (z ++ mid) ∧
      (previous = .usingWord → k = .name → w ++ (z ++ mid) ≠ "static".toList ++ (z ++ mid)) ∧
      Lexes k (z ++ mid) ks mid := by
  cases h with
  | more htrivia hmatched hstatic hmore =>
      obtain ⟨z, rfl⟩ := hmore.suffix
      have hskip := hmatched.skipTrivia_eq htrivia
      obtain ⟨w, rfl, hne, hstop⟩ := hmatched.exists_text
      have hcut : skipTrivia y = w ++ z :=
        skipTrivia_of_append (t := mid) (by rw [hskip, List.append_assoc])
      refine ⟨w, z, hcut ▸ skipTrivia_suffix y, hstop, fun u => ?_, hmatched, hstatic, hmore⟩
      rw [skipTrivia_append_of_stop, hcut, List.append_assoc]
      · rw [hcut]
        exact List.append_ne_nil_of_left_ne_nil hne z
      · rw [hcut, List.append_assoc]
        exact hstop _

theorem Lexes.exchange {previous : Terminal} {y mid mid' : Text} {ks : List Terminal}
    (h : Lexes previous (y ++ mid) ks mid) (hinner : ∀ k ∈ ks, k.IsInner)
    (hmid : Parts isWordChar mid') : Lexes previous (y ++ mid') ks mid' := by
  induction ks generalizing previous y with
  | nil =>
      generalize ht : y ++ mid = t at h
      cases h
      obtain rfl := List.append_left_eq_self.mp ht
      exact .done previous mid'
  | cons k ks ih =>
      obtain ⟨hk, hks⟩ := List.forall_mem_cons.mp hinner
      obtain ⟨w, z, -, hstop, hskip, hmatched, hstatic, hmore⟩ := h.exists_first
      obtain ⟨token, hread, hisA⟩ := (matches_iff hk).mp hmatched
      refine .more ((trivia_stop_iff (hstop _)).mpr (hskip mid'))
        ((matches_iff hk).mpr ⟨token, readToken?_exchange hread hmid, hisA⟩) ?_ (ih hmore hks)
      intro husing hname htext
      refine hstatic husing hname ?_
      rw [List.append_cancel_right htext]

theorem Lexes.behindSemicolon {previous : Terminal} {t rest : Text} {ks : List Terminal}
    (h : Lexes previous t ks rest) (hlast : ks.getLast? = some (.symbol .semicolon)) :
    BehindSemicolon rest (skipTrivia t) := by
  induction h with
  | done => simp at hlast
  | @more _ k _ here behind _ ks htrivia hmatched _ hmore ih =>
      rw [hmatched.skipTrivia_eq htrivia]
      by_cases hks : ks = []
      · subst hks
        cases hmore
        obtain rfl : k = .symbol .semicolon := by simpa using hlast
        obtain ⟨token, hread, ⟨⟩⟩ := (matches_iff (k := .symbol .semicolon) trivial).mp hmatched
        exact ⟨[], readToken?_symbol_iff.mp hread⟩
      · obtain ⟨w, hhere, -, -⟩ := hmatched.exists_text
        rw [List.getLast?_cons, List.getLast?_eq_some_getLast hks] at hlast
        have hsemicolon := ih (by rw [List.getLast?_eq_some_getLast hks]; simpa using hlast)
        exact behindSemicolon_of_suffix hsemicolon ((skipTrivia_suffix behind).trans ⟨w, hhere.symm⟩)

end ScriptWeave.Header
