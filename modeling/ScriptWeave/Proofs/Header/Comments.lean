import ScriptWeave.Proofs.Header.Gaps

/-!
A comment put between two tokens of a declaration. Once a declaration has been recognised by its
keyword, a comment in it is trivia; but the look-aheads that recognise a keyword know no comments.
They reach over the word behind `global` and `extern`, and behind `using` up to the semicolon. In a
gap that a look-ahead reaches over, the comment ends the declarations in front of its own or is a
fault.
-/

namespace ScriptWeave.Header

open Text

/-! ### What a look-ahead makes of a comment -/

theorem KeywordFollows.exchange {w y mid mid' : Text} {c : Char}
    (h : KeywordFollows (w ++ [c]) (y ++ mid)) (hblank : isBlank c = false) (hw : c ∉ w) (hy : c ∈ y)
    (hmid : Parts isWordChar mid') : KeywordFollows (w ++ [c]) (y ++ mid') := by
  obtain ⟨gap, more, htext, hne, hgap, hparts⟩ := h
  have hfirst : y ++ mid = (gap ++ w) ++ c :: more := by simp [htext]
  obtain ⟨back, rfl, rfl⟩ :=
    front_of_first hfirst (by simp [hw, not_mem_of_consists hgap hblank]) hy
  refine ⟨gap, back ++ mid', by simp, hne, hgap, ?_⟩
  cases back with
  | nil => exact hmid
  | cons d back => exact parts_cons _ (hparts d rfl)

theorem not_keywordFollows_insert {c : Char} {word gap back comment : Text}
    (h : KeywordFollows (c :: word) (gap ++ back)) (hc : isWordChar c = true)
    (hgap : skipTrivia gap = []) (hcomment : IsSpacedComment comment) :
    ¬ KeywordFollows (c :: word) (gap ++ (comment ++ back)) := by
  have hblanks : Consists isBlank gap := by
    obtain ⟨blanks, more, htext, -, hblanks, -⟩ := h
    rcases List.append_eq_append_iff.mp htext with ⟨rest, rfl, -⟩ | ⟨rest, rfl, hrest⟩
    · exact fun d hd => hblanks d (List.mem_append_left _ hd)
    · cases rest with
      | nil => simpa using hblanks
      | cons d rest =>
          obtain ⟨rfl, -⟩ := List.cons.inj hrest
          have hsuffix := suffix_skipTrivia_of_blank (t := c :: rest) hblanks
            (afterTrivium?_of_isWordChar rest hc)
          rw [hgap] at hsuffix
          exact absurd hsuffix.length_le (by simp)
  rintro ⟨blanks, more, htext, -, hblanks', -⟩
  obtain ⟨b, slash, rfl, hb⟩ := hcomment.exists_slash
  have hrun : Consists isBlank (gap ++ b) := List.forall_mem_append.mpr ⟨hblanks, hb⟩
  have hboth : (gap ++ b) ++ '/' :: (slash ++ back) = blanks ++ c :: (word ++ more) := by
    simpa using htext
  have hdrop := congrArg (List.dropWhile isBlank) hboth
  rw [dropWhile_of_parts hrun (parts_cons _ (by decide)),
    dropWhile_of_parts hblanks' (parts_cons _ (not_isBlank_of_isWordChar hc))] at hdrop
  obtain ⟨rfl, -⟩ := List.cons.inj hdrop
  exact absurd hc (by decide)

theorem exists_skipTrivia_ahead {front : Text} (h : Consists isAheadChar front) (rest : Text) :
    ∃ front', skipTrivia (front ++ ';' :: rest) = front' ++ ';' :: rest ∧
      Consists isAheadChar front' := by
  induction front with
  | nil => exact ⟨[], skipTrivia_of_none rfl, h⟩
  | cons c front ih =>
      obtain ⟨hc, hmore⟩ := List.forall_mem_cons.mp h
      cases hsep : isGap c with
      | true =>
          rw [List.cons_append, skipTrivia_of_gap _ hsep]
          exact ih hmore
      | false =>
          have hslash : c ≠ '/' := fun heq => absurd (heq ▸ hc) (by decide)
          have hsharp : c ≠ '#' := fun heq => absurd (heq ▸ hc) (by decide)
          exact ⟨c :: front, skipTrivia_of_none (afterTrivium?_cons_eq_none _ hsep hslash hsharp), h⟩

theorem readToken?_text {t rest : Text} {token : Token} (h : readToken? t = some (token, rest))
    (htoken : token ≠ .symbol .semicolon) : ∃ w, t = w ++ rest ∧ ';' ∉ w := by
  cases token with
  | word w =>
      rw [readToken?_word_iff, readName?_eq_some_iff] at h
      obtain ⟨rfl, ⟨mark, c, body, rfl, hmark, hc, hbody⟩, -⟩ := h
      have hstart : c ≠ ';' := fun heq => absurd (heq ▸ hc) (by decide)
      have hrest : ';' ∉ body := not_mem_of_consists hbody (by decide)
      refine ⟨_, rfl, ?_⟩
      rcases hmark with rfl | rfl <;> simp [hstart.symm, hrest]
  | symbol s =>
      refine ⟨_, readToken?_symbol_iff.mp h, ?_⟩
      cases s <;> simp [Symbol.toText] at htoken ⊢

theorem readToken?_ahead {front rest behind : Text} {token : Token}
    (hfront : Consists isAheadChar front)
    (h : readToken? (front ++ ';' :: rest) = some (token, behind)) :
    (token = .symbol .semicolon ∧ behind = rest) ∨ (token ≠ .symbol .semicolon ∧
      ∃ front', behind = front' ++ ';' :: rest ∧ Consists isAheadChar front') := by
  by_cases htoken : token = .symbol .semicolon
  · subst htoken
    rw [readToken?_symbol_iff] at h
    cases front with
    | nil => exact .inl ⟨rfl, (List.cons.inj h).2.symm⟩
    | cons c front =>
        obtain ⟨rfl, -⟩ := List.cons.inj h
        exact absurd (hfront ';' List.mem_cons_self) (by decide)
  · refine .inr ⟨htoken, ?_⟩
    obtain ⟨w, htext, hclean⟩ := readToken?_text h htoken
    rcases List.append_eq_append_iff.mp htext with ⟨more, rfl, hmore⟩ | ⟨front', rfl, hbehind⟩
    · cases more with
      | nil => exact ⟨[], hmore.symm, by simp [Consists]⟩
      | cons c more =>
          obtain ⟨rfl, -⟩ := List.cons.inj hmore
          simp at hclean
    · exact ⟨front', hbehind, fun c hc => hfront c (List.mem_append_right _ hc)⟩

theorem finish_of_ahead {front rest after last : Text} {point : Point}
    (hfront : Consists isAheadChar front)
    (h : finish last point (Tokens.read (front ++ ';' :: rest)) = .ok after) : after = rest := by
  generalize ht : front ++ ';' :: rest = t at h
  induction t using tokens_induction generalizing front last point with
  | step t ih =>
      subst ht
      obtain ⟨front', hskip, hfront'⟩ := exists_skipTrivia_ahead hfront rest
      obtain ⟨token, behind, hread, hways⟩ := finish_ok_iff.mp h
      rcases readToken?_ahead hfront' (hskip ▸ hread) with
        ⟨rfl, rfl⟩ | ⟨htoken, front'', rfl, hfront''⟩
      · rcases hways with ⟨-, -, hafter⟩ | ⟨next, hnext, -⟩
        · exact hafter.symm
        · simp [Point.next_semicolon] at hnext
      · rcases hways with ⟨hsemicolon, -⟩ | ⟨next, -, hfinish⟩
        · exact absurd hsemicolon htoken
        · exact ih token _ hread hfront'' rfl hfinish

theorem not_directiveFollows_insert {front back after comment last : Text} {point : Point}
    (h : DirectiveFollows (front ++ back))
    (hfinish : finish last point (Tokens.read (front ++ back)) = .ok after)
    (hback : BehindSemicolon after back) (hcomment : IsSpacedComment comment) :
    ¬ DirectiveFollows (front ++ (comment ++ back)) := by
  obtain ⟨ahead, rest, htext, hahead, -⟩ := h.decided
  obtain rfl := finish_of_ahead hahead (htext ▸ hfinish)
  obtain ⟨middle, rfl⟩ := hback
  rw [← List.append_assoc] at htext
  obtain rfl := List.append_cancel_right htext
  intro hfollows
  obtain ⟨ahead', rest', htext', hahead', -⟩ := hfollows.decided
  obtain ⟨b, slash, rfl, hb⟩ := hcomment.exists_slash
  have hclean : ';' ∉ front ++ (b ++ ['/']) := by
    have hfront : ';' ∉ front := fun hmem =>
      not_mem_of_consists hahead (by decide) (List.mem_append_left _ hmem)
    simp [hfront, not_mem_of_consists hb (show isBlank ';' = false by decide)]
  have hslash : '/' ∉ ahead' := not_mem_of_consists hahead' (by decide)
  have hboth : (front ++ (b ++ ['/'])) ++ (slash ++ (middle ++ ';' :: after)) =
      ahead' ++ ';' :: rest' := by
    rw [← htext']
    simp
  rcases List.append_eq_append_iff.mp hboth with ⟨more, rfl, -⟩ | ⟨more, hmore, hrest⟩
  · simp at hslash
  · cases more with
    | nil =>
        rw [List.append_nil] at hmore
        simp [← hmore] at hslash
    | cons c more =>
        obtain ⟨rfl, -⟩ := List.cons.inj hrest
        simp [hmore] at hclean

/-! ### Gaps -/

/-- A declaration is parted in a gap: `front` is the keyword `k` of it, the terminals `ks` behind the
keyword and a run of trivia, and `back` begins with the rest of it, in which there is a further
terminal. -/
def IsGap (k : Terminal) (ks : List Terminal) (front back after : Text) : Prop :=
  ∃ word read gap ks', front = word ++ (read ++ gap) ∧
    k.Matches (word ++ (read ++ (gap ++ back))) (read ++ (gap ++ back)) ∧
    Lexes k (read ++ (gap ++ back)) ks (gap ++ back) ∧ Trivia gap [] ∧
    Lexes ((k :: ks).getLast (List.cons_ne_nil k ks)) (gap ++ back) ks' after ∧ ks' ≠ [] ∧
    (Derives (.rule .usingDirective) (k :: (ks ++ ks')) ∨
      Derives (.rule .externAlias) (k :: (ks ++ ks')))

theorem getLast?_of_derives {ks : List Terminal}
    (h : Derives (.rule .usingDirective) ks ∨ Derives (.rule .externAlias) ks) :
    ks.getLast? = some (.symbol .semicolon) := by
  have hmark (f : Form) (hf : Derives (f ++ .mark .semicolon) ks) :
      ks.getLast? = some (.symbol .semicolon) := by
    obtain ⟨as, bs, rfl, -, hbs⟩ := derives_sequence_iff.mp hf
    rw [derives_token_iff.mp hbs, List.getLast?_concat]
  rcases h with h | h <;> exact hmark _ (derives_rule_iff.mp h)

theorem opening_of_derives {k : Terminal} {ks : List Terminal}
    (h : Derives (.rule .usingDirective) (k :: ks) ∨ Derives (.rule .externAlias) (k :: ks)) :
    (∃ ks', k = .globalWord ∧ ks = .usingWord :: ks' ∧ Completes .opening ks') ∨
      (k = .usingWord ∧ Completes .opening ks) ∨
      (k = .externWord ∧ ks = [.aliasWord, .name, .symbol .semicolon]) := by
  rcases h with h | h
  · rcases derives_usingDirective_iff.mp h with ⟨ks', hks, hcompletes⟩ | ⟨ks', hks, hcompletes⟩
    · obtain ⟨rfl, rfl⟩ := List.cons.inj hks
      exact .inl ⟨ks', rfl, rfl, hcompletes⟩
    · obtain ⟨rfl, rfl⟩ := List.cons.inj hks
      exact .inr (.inl ⟨rfl, hcompletes⟩)
  · obtain ⟨ks', hks, hcompletes⟩ := derives_externAlias_iff.mp h
    obtain ⟨rfl, rfl⟩ := List.cons.inj hks
    obtain ⟨ks₁, halias, hname⟩ := derives_token_first.mp hcompletes
    obtain ⟨ks₂, rfl, hlast⟩ := derives_token_first.mp hname
    exact .inr (.inr ⟨rfl, by rw [halias, derives_token_iff.mp hlast]⟩)

section Gap

variable {k : Terminal} {ks : List Terminal} {front back after comment : Text}

theorem IsGap.isDeclaration (h : IsGap k ks front back after) :
    IsDeclaration (front ++ back) after := by
  obtain ⟨word, read, gap, ks', rfl, hopens, hread, hgap, hleft, hne, hderives⟩ := h
  refine ⟨k, _, ks ++ ks', ?_, by simpa using hopens, hread.append hleft, hderives⟩
  rcases opening_of_derives hderives with ⟨-, rfl, -⟩ | ⟨rfl, -⟩ | ⟨rfl, -⟩
  · exact .inr (.inl rfl)
  · exact .inl rfl
  · exact .inr (.inr rfl)

theorem IsGap.behindSemicolon (h : IsGap k ks front back after) : BehindSemicolon after back := by
  obtain ⟨word, read, gap, ks', rfl, -, -, hgap, hleft, hne, hderives⟩ := h
  have hlast := getLast?_of_derives hderives
  rw [← List.cons_append, List.getLast?_append_of_ne_nil _ hne] at hlast
  obtain ⟨-, hsuffix⟩ := skipTrivia_insert hgap.skipTrivia_eq .nil back
  exact behindSemicolon_of_suffix (hleft.behindSemicolon hlast) hsuffix

theorem parts_insert {gap : Text} (hgap : skipTrivia gap = [])
    (hcomment : IsSpacedComment comment) :
    Parts isWordChar (gap ++ (comment ++ back)) := by
  intro c hc
  by_contra hword
  obtain ⟨t, ht⟩ := List.head?_eq_some_iff.mp hc
  obtain ⟨hskip, hsuffix⟩ := skipTrivia_insert hgap hcomment.inlineRun back
  rw [← hskip, ht, skipTrivia_of_none (afterTrivium?_of_isWordChar t (Bool.of_not_eq_false hword)),
    ← ht] at hsuffix
  obtain ⟨b, slash, rfl, -⟩ := hcomment.exists_slash
  have hlength := hsuffix.length_le
  simp only [List.length_append, List.length_cons] at hlength
  omega

theorem IsGap.insert (h : IsGap .externWord ks front back after) (hks : ks ≠ [])
    (hcomment : IsSpacedComment comment) :
    IsGap .externWord ks (front ++ comment) back after := by
  obtain ⟨word, read, gap, ks', rfl, hopens, hread, hgap, hleft, hne, hderives⟩ := h
  have hrow : ks ++ ks' = [.aliasWord, .name, .symbol .semicolon] := by
    rcases opening_of_derives hderives with ⟨_, hk, -⟩ | ⟨hk, -⟩ | ⟨-, hrow⟩
    · simp at hk
    · simp at hk
    · exact hrow
  obtain ⟨first, ks, rfl⟩ := List.exists_cons_of_ne_nil hks
  obtain ⟨rfl, -⟩ := List.cons.inj hrow
  have hinner : ∀ k ∈ .aliasWord :: ks, k.IsInner := by
    intro k hk
    have hmem : k ∈ [.aliasWord, .name, .symbol .semicolon] := hrow ▸ List.mem_append_left ks' hk
    simp only [List.mem_cons, List.not_mem_nil, or_false] at hmem
    rcases hmem with rfl | rfl | rfl <;> trivial
  have hskips := hgap.skipTrivia_eq
  obtain ⟨hskip, -⟩ := skipTrivia_insert hskips hcomment.inlineRun back
  have hparts : Parts isWordChar (gap ++ (comment ++ back)) := parts_insert hskips hcomment
  have hwide : Trivia (gap ++ comment) [] := by
    have htrivia := trivia_skipTrivia (gap ++ comment)
    have hnil := skipTrivia_insert hskips hcomment.inlineRun []
    simp only [List.append_nil] at hnil
    rwa [hnil.1, hskips] at htrivia
  have hopens' : Terminal.externWord.Matches (word ++ (read ++ (gap ++ (comment ++ back))))
      (read ++ (gap ++ (comment ++ back))) := by
    have hextern := afterExtern?_eq_some_iff.mp (after?_externWord_iff.mp hopens)
    obtain ⟨w, z, hsuffix, -, -, hmatched, -⟩ := hread.exists_first
    obtain rfl := List.append_cancel_right hextern.1
    obtain rfl := List.append_cancel_right hmatched.2
    refine after?_externWord_iff.mpr (afterExtern?_eq_some_iff.mpr ⟨rfl, ?_⟩)
    exact hextern.2.exchange (w := "alia".toList) (c := 's') (by decide) (by decide)
      (hsuffix.subset (by simp)) hparts
  refine ⟨word, read, gap ++ comment, ks', by simp, ?_, ?_, hwide, ?_, hne, hderives⟩
  · simpa using hopens'
  · simpa using hread.exchange hinner hparts
  · simpa using hleft.of_skipTrivia_eq hne hskip

theorem afterUsing?_insert (word read : Text)
    (hopens : Terminal.usingWord.Matches (word ++ (read ++ back)) (read ++ back))
    (hlexes : Lexes .usingWord (read ++ back) ks after) (hcompletes : Completes .opening ks)
    (hafter : BehindSemicolon after back) (hcomment : IsSpacedComment comment) :
    afterUsing? (word ++ (read ++ (comment ++ back))) = none := by
  have husing := afterUsing?_eq_some_iff.mp (after?_usingWord_iff.mp hopens)
  obtain rfl := List.append_cancel_right husing.1
  have hfinish : finish [] .opening (Tokens.read (read ++ back)) = .ok after :=
    finish_of_lexes hlexes hcompletes fun _ => rfl
  rw [Option.eq_none_iff_forall_ne_some]
  intro rest hrest
  obtain ⟨htext, hfollows⟩ := afterUsing?_eq_some_iff.mp hrest
  obtain rfl := List.append_cancel_left htext
  exact not_directiveFollows_insert husing.2 hfinish hafter hcomment hfollows

theorem readDeclaration?_of_none {t : Text} (husing : afterUsing? t = none)
    (hglobal : afterGlobal? t = none) (halias : afterExtern? t = none) :
    readDeclaration? t = none := by
  simp only [Header.readDeclaration?, husing, hglobal, halias]

theorem afterExtern?_of_other {c : Char} (t : Text) (hc : c ≠ 'e') :
    afterExtern? (c :: t) = none := by
  rw [Option.eq_none_iff_forall_ne_some]
  intro rest h
  rw [afterExtern?_eq_some_iff] at h
  exact hc (List.cons.inj h.1).1

theorem keyword_insert_none {reader : Text → Option Text} {c : Char} {word next gap : Text}
    (hreader : ∀ {t rest : Text},
      reader t = some rest ↔ t = word ++ rest ∧ KeywordFollows (c :: next) rest)
    (hc : isWordChar c = true) (h : reader (word ++ (gap ++ back)) = some (gap ++ back))
    (hgap : skipTrivia gap = []) (hcomment : IsSpacedComment comment) :
    reader (word ++ (gap ++ (comment ++ back))) = none := by
  obtain ⟨-, hfollows⟩ := hreader.mp h
  rw [Option.eq_none_iff_forall_ne_some]
  intro rest hrest
  obtain ⟨htext, hfollows'⟩ := hreader.mp hrest
  obtain rfl := List.append_cancel_left htext
  exact not_keywordFollows_insert hfollows hc hgap hcomment hfollows'

theorem IsGap.readDeclaration?_none (h : IsGap k ks front back after) (hk : k = .usingWord ∨ ks = [])
    (hcomment : IsSpacedComment comment) :
    readDeclaration? (front ++ (comment ++ back)) = none := by
  have hafter := h.behindSemicolon
  obtain ⟨word, read, gap, ks', rfl, hopens, hread, hgap, hleft, hne, hderives⟩ := h
  rw [List.append_assoc, List.append_assoc]
  have hdirect (hks : ks = []) : read = [] := by
    subst hks
    generalize ht : read ++ (gap ++ back) = t at hread
    cases hread
    exact List.append_left_eq_self.mp ht
  rcases opening_of_derives hderives with ⟨_, rfl, -⟩ | ⟨rfl, hcompletes⟩ | ⟨rfl, -⟩
  · obtain rfl := hdirect (hk.resolve_left (by simp))
    simp only [List.nil_append] at hopens ⊢
    have hglobal := after?_globalWord_iff.mp hopens
    obtain rfl := List.append_cancel_right (afterGlobal?_eq_some_iff.mp hglobal).1
    exact readDeclaration?_of_none (afterUsing?_of_other _ (by decide))
      (keyword_insert_none afterGlobal?_eq_some_iff (by decide) hglobal hgap.skipTrivia_eq hcomment)
      (afterExtern?_of_other _ (by decide))
  · have husing := afterUsing?_insert word (read ++ gap) (by simpa using hopens)
      (by simpa using hread.append hleft) hcompletes hafter hcomment
    rw [List.append_assoc] at husing
    obtain ⟨hword, -⟩ := afterUsing?_eq_some_iff.mp (after?_usingWord_iff.mp hopens)
    obtain rfl := List.append_cancel_right hword
    exact readDeclaration?_of_none husing (afterGlobal?_of_other _ (by decide))
      (afterExtern?_of_other _ (by decide))
  · obtain rfl := hdirect (hk.resolve_left (by simp))
    simp only [List.nil_append] at hopens ⊢
    have hextern := after?_externWord_iff.mp hopens
    obtain rfl := List.append_cancel_right (afterExtern?_eq_some_iff.mp hextern).1
    exact readDeclaration?_of_none (afterUsing?_of_other _ (by decide))
      (afterGlobal?_of_other _ (by decide))
      (keyword_insert_none afterExtern?_eq_some_iff (by decide) hextern hgap.skipTrivia_eq hcomment)

theorem IsGap.readDeclaration?_error (h : IsGap .globalWord ks front back after) (hks : ks ≠ [])
    (hcomment : IsSpacedComment comment) :
    ∃ fault, readDeclaration? (front ++ (comment ++ back)) = some (.error fault) := by
  have hafter := h.behindSemicolon
  obtain ⟨word, read, gap, ks', rfl, hopens, hread, hgap, hleft, hne, hderives⟩ := h
  rw [List.append_assoc, List.append_assoc]
  obtain ⟨first, ks, rfl⟩ := List.exists_cons_of_ne_nil hks
  obtain ⟨rfl, hcompletes⟩ : first = .usingWord ∧ Completes .opening (ks ++ ks') := by
    rcases opening_of_derives hderives with ⟨_, -, hrow, hcompletes⟩ | ⟨hk, -⟩ | ⟨hk, -⟩
    · obtain ⟨rfl, rfl⟩ := List.cons.inj hrow
      exact ⟨rfl, hcompletes⟩
    · simp at hk
    · simp at hk
  obtain ⟨w, z, hsuffix, -, hskip, hmatched, -, hmore⟩ := hread.exists_first
  have husing := afterUsing?_insert w (z ++ gap) (by simpa using hmatched)
    (by simpa using hmore.append (by simpa using hleft)) hcompletes hafter hcomment
  have hglobal := afterGlobal?_eq_some_iff.mp (after?_globalWord_iff.mp hopens)
  have hword := (afterUsing?_eq_some_iff.mp (after?_usingWord_iff.mp hmatched)).1
  obtain rfl := List.append_cancel_right hglobal.1
  obtain rfl := List.append_cancel_right hword
  have hglobal' : afterGlobal? ("global".toList ++ (read ++ (gap ++ (comment ++ back)))) =
      some (read ++ (gap ++ (comment ++ back))) := by
    refine afterGlobal?_eq_some_iff.mpr ⟨rfl, ?_⟩
    exact hglobal.2.exchange (w := "usin".toList) (c := 'g') (by decide) (by decide)
      (hsuffix.subset (by simp)) (parts_insert hgap.skipTrivia_eq hcomment)
  have hother : afterUsing? ("global".toList ++ (read ++ (gap ++ (comment ++ back)))) = none :=
    afterUsing?_of_other _ (by decide)
  rw [List.append_assoc] at husing
  simp only [Header.readDeclaration?, hother, hglobal', hskip, husing]
  exact ⟨_, rfl⟩

end Gap

/-! ### Texts -/

/-- Behind `n` declarations, a text has one that is parted where `back` begins. -/
inductive HasGap (k : Terminal) (ks : List Terminal) (back : Text) : Nat → Text → Prop
  | here {t front after : Text} (trivia : Trivia t (front ++ back))
      (gap : IsGap k ks front back after) : HasGap k ks back 0 t
  | later {n : Nat} {t d after : Text} (trivia : Trivia t (d ++ after))
      (read : IsDeclaration (d ++ after) after) (more : HasGap k ks back n after) :
      HasGap k ks back (n + 1) t

section Texts

variable {k : Terminal} {ks : List Terminal} {t front back comment : Text} {n : Nat}

theorem IsGap.skipTrivia_eq {after lead : Text} (h : IsGap k ks front back after)
    (htrivia : Trivia (lead ++ (front ++ back)) (front ++ back)) (u : Text) :
    skipTrivia (lead ++ (front ++ u)) = front ++ u := by
  have hskip := (trivia_stop_iff h.isDeclaration.afterTrivium?).mp htrivia
  obtain ⟨word, read, gap, ks', rfl, hopens, -⟩ := h
  obtain ⟨w, hw, hne, hstop⟩ := hopens.exists_text
  obtain rfl := List.append_cancel_right hw
  have hcut : skipTrivia (lead ++ (word ++ (read ++ gap))) = word ++ (read ++ gap) :=
    skipTrivia_of_append (t := back) (by simpa using hskip)
  have hwhole : lead ++ (word ++ (read ++ gap) ++ u) = lead ++ (word ++ (read ++ gap)) ++ u := by simp
  rw [hwhole, skipTrivia_append_of_stop, hcut]
  · rw [hcut]
    exact List.append_ne_nil_of_left_ne_nil hne _
  · rw [hcut, List.append_assoc]
    exact hstop _

theorem HasGap.exists_reading (h : HasGap k ks back n t) :
    ∃ lead ds front after, t = lead ++ (front ++ back) ∧ IsGap k ks front back after ∧
      ds.length = n ∧ ∀ u, ∃ rest,
        declarations (lead ++ (front ++ u)) = prepend ds (declarations rest) ∧
          skipTrivia rest = front ++ u := by
  induction h with
  | @here t front after htrivia hgap =>
      obtain ⟨lead, rfl⟩ : front ++ back <:+ t :=
        (trivia_stop_iff hgap.isDeclaration.afterTrivium?).mp htrivia ▸ skipTrivia_suffix t
      refine ⟨lead, [], front, after, rfl, hgap, rfl, fun u => ⟨_, (prepend_nil _).symm, ?_⟩⟩
      exact hgap.skipTrivia_eq htrivia u
  | @later n t d after htrivia hread _ ih =>
      obtain ⟨lead, ds, front, after', rfl, hgap, rfl, hall⟩ := ih
      have hskip := (trivia_stop_iff hread.afterTrivium?).mp htrivia
      obtain ⟨lead', rfl⟩ : d ++ (lead ++ (front ++ back)) <:+ t := hskip ▸ skipTrivia_suffix t
      have hcut : skipTrivia (lead' ++ d) = d :=
        skipTrivia_of_append (t := lead ++ (front ++ back)) (by simpa using hskip)
      have hwhole : readDeclaration? (d ++ (lead ++ (front ++ back))) =
          some (.ok ([] ++ (lead ++ (front ++ back)))) := isDeclaration_iff.mp hread
      have hread' : readDeclaration? (skipTrivia (lead' ++ d)) = some (.ok []) := by
        rw [hcut, readDeclaration?_of_append hwhole]
      have hfirst : declarations (lead' ++ d) = .ok ([d], []) := by
        rw [declarations_of_ok hread', hcut, before_nil]
        rfl
      refine ⟨lead' ++ d ++ lead, d :: ds, front, after', by simp, hgap, rfl, fun u => ?_⟩
      obtain ⟨rest, hrest, hbehind⟩ := hall u
      refine ⟨rest, ?_, hbehind⟩
      rw [List.append_assoc _ lead, declarations_append hfirst, List.nil_append, hrest,
        prepend_prepend]
      rfl

theorem countLineBreaks_insert {rest : Text} (hcomment : IsSpacedComment comment)
    (hwhole : ¬ PartsBreak front rest) :
    countLineBreaks (front ++ (comment ++ rest)) = countLineBreaks (front ++ rest) := by
  have hclean := hcomment.inlineRun.isLineEnd
  obtain ⟨b, slash, hslash, -⟩ := hcomment.exists_slash
  have hfront : ¬ PartsBreak front (comment ++ rest) := by
    rintro ⟨-, hfeed⟩
    rw [List.head?_append_of_ne_nil _ (by simp [hslash])] at hfeed
    exact absurd (hclean _ (List.mem_of_mem_head? hfeed)) (by decide)
  have hback : ¬ PartsBreak comment rest := fun hparts =>
    absurd (hclean _ (List.mem_of_getLast? hparts.1)) (by decide)
  rw [countLineBreaks_append hfront, countLineBreaks_append hback, countLineBreaks_append hwhole,
    countLineBreaks_inline hclean, Nat.zero_add]

theorem split_of_insert {ds ds' : List Text} {d d' rest : Text} {s : Split}
    (h : split (front ++ back) = .ok s)
    (hread : declarations (front ++ back) = .ok (ds ++ d :: ds', rest)) (hrest : rest <:+ back)
    (hread' : declarations (front ++ (comment ++ back)) = .ok (ds ++ d' :: ds', rest))
    (hcomment : IsSpacedComment comment) :
    ∃ s', split (front ++ (comment ++ back)) = .ok s' ∧
      s'.directives.length = s.directives.length ∧ s'.body = s.body ∧
      (¬ PartsBreak front back → s'.lineCount = s.lineCount) := by
  rw [split_of_declarations hread (by simp), Except.ok.injEq] at h
  subst h
  refine ⟨_, split_of_declarations hread' (by simp), by simp, rfl, fun hwhole => ?_⟩
  obtain ⟨lead, brk, hlead, -⟩ := exists_skipTrailing rest
  obtain ⟨z, rfl⟩ : skipTrailing rest <:+ back :=
    List.IsSuffix.trans ⟨lead ++ brk, by rw [List.append_assoc, ← hlead]⟩ hrest
  have hwhole' : ¬ PartsBreak front z := by
    rintro ⟨hreturn, hfeed⟩
    refine hwhole ⟨hreturn, ?_⟩
    rw [List.head?_append, hfeed]
    rfl
  have hbefore : before (front ++ (z ++ skipTrailing rest)) (skipTrailing rest) = front ++ z := by
    rw [← List.append_assoc, before_append]
  have hbefore' : before (front ++ (comment ++ (z ++ skipTrailing rest))) (skipTrailing rest) =
      front ++ (comment ++ z) := by
    rw [← List.append_assoc comment, ← List.append_assoc front, before_append]
  rw [hbefore, hbefore', countLineBreaks_insert hcomment hwhole']

/-- A comment in a gap of a declaration is trivia only behind `extern alias`. Directly behind
`extern` or `global`, or anywhere in a declaration that begins with `using`, it ends the declarations
in front of its own; and further behind `global` it is a fault. -/
theorem split_insert_comment {s : Split} (h : split (front ++ back) = .ok s)
    (hgap : HasGap k ks back n (front ++ back)) (hcomment : IsSpacedComment comment) :
    (k = .externWord → ks ≠ [] → ∃ s', split (front ++ (comment ++ back)) = .ok s' ∧
      s'.directives.length = s.directives.length ∧ s'.body = s.body ∧
      (¬ PartsBreak front back → s'.lineCount = s.lineCount)) ∧
    (k = .globalWord → ks ≠ [] → ∃ fault, split (front ++ (comment ++ back)) = .error fault) ∧
    (k = .usingWord ∨ ks = [] → ∃ s', split (front ++ (comment ++ back)) = .ok s' ∧
      s'.directives = s.directives.take n ∧ n < s.directives.length) := by
  obtain ⟨lead, ds, front', after, htext, hparted, rfl, hall⟩ := hgap.exists_reading
  rw [← List.append_assoc] at htext
  obtain rfl := List.append_cancel_right htext
  simp only [List.append_assoc] at h ⊢
  obtain ⟨behind, hbehind, hskip⟩ := hall back
  obtain ⟨behind', hbehind', hskip'⟩ := hall (comment ++ back)
  have hfirst := isDeclaration_iff.mp hparted.isDeclaration
  rw [← hskip] at hfirst
  obtain ⟨ds₀, rest, hread⟩ := exists_declarations h
  have hread₀ := hread
  rw [hbehind, declarations_of_ok hfirst, prepend_prepend, prepend_eq_ok_iff] at hread₀
  obtain ⟨ds', hmore, rfl⟩ := hread₀
  rw [List.append_assoc, List.singleton_append] at hread
  refine ⟨?_, ?_, ?_⟩
  -- The declaration is read with the comment in it, and those behind it as before.
  · rintro rfl hks
    have hinserted := isDeclaration_iff.mp (hparted.insert hks hcomment).isDeclaration
    rw [List.append_assoc, ← hskip'] at hinserted
    have hread' : declarations (lead ++ (front' ++ (comment ++ back))) =
        .ok (ds ++ before (skipTrivia behind') after :: ds', rest) := by
      rw [hbehind', declarations_of_ok hinserted, hmore]
      rfl
    obtain ⟨middle, hback⟩ := hparted.behindSemicolon
    have hrest : rest <:+ back :=
      (suffix_of_declarations hmore).trans ⟨middle ++ [';'], by simp [hback]⟩
    rw [← List.append_assoc] at h hread hread' ⊢
    exact split_of_insert h hread hrest hread' hcomment
  · rintro rfl hks
    obtain ⟨fault, hfault⟩ := hparted.readDeclaration?_error hks hcomment
    rw [← hskip'] at hfault
    refine ⟨fault, split_eq_error_iff.mpr ?_⟩
    rw [hbehind', prepend_eq_error_iff]
    exact declarations_of_error hfault
  -- No declaration begins where this one did, so the reading stops in front of it.
  · intro hk
    have hnone := hparted.readDeclaration?_none hk hcomment
    rw [← hskip'] at hnone
    have hread' : declarations (lead ++ (front' ++ (comment ++ back))) = .ok (ds, behind') := by
      rw [hbehind', declarations_of_none hnone, prepend, List.append_nil]
    obtain ⟨s', hs', hdirectives⟩ := directives_iff.mpr ⟨ds, behind', hread', rfl⟩
    rw [split_of_declarations hread (by simp), Except.ok.injEq] at h
    subst h
    exact ⟨s', hs', by simp [hdirectives], by simp⟩

end Texts

/-- The declaration behind `extern alias A;` is lost. -/
theorem split_insert_comment_behind_using :
    split "extern alias A;\nusing B;\nx" =
        .ok ⟨"extern alias A;\nusing B;", "x", 2, ["extern alias A;", "using B;"]⟩ ∧
      HasGap .usingWord [] "B;\nx" 1 "extern alias A;\nusing B;\nx" ∧
      IsSpacedComment "/* c */ " ∧
      ∃ s', split "extern alias A;\nusing /* c */ B;\nx" = .ok s' ∧
        s'.directives = ["extern alias A;"] := by
  have hsplit : split "extern alias A;\nusing B;\nx" =
      .ok ⟨"extern alias A;\nusing B;", "x", 2, ["extern alias A;", "using B;"]⟩ := rfl
  have hcomment : IsSpacedComment "/* c */ " :=
    ⟨[], "/* c */", " ", rfl, by simp [Consists], by simp [Consists, isInlineGap], " c ", rfl,
      by simp [isLineEnd], by decide⟩
  have hcompletes : Completes .opening [.name, .symbol .semicolon] :=
    (Point.completes_kind_iff .opening (.word "B")).mpr (.inr ⟨.firstName, rfl,
      (Point.completes_kind_iff .firstName (.symbol .semicolon)).mpr (.inl ⟨rfl, rfl, rfl⟩)⟩)
  have hlexes : Lexes .usingWord " B;\nx" [.name, .symbol .semicolon] "\nx" :=
    .more (trivia_skipTrivia _) (show Terminal.name.Matches "B;\nx" ";\nx" from rfl) (by decide)
      (.more (trivia_skipTrivia _) rfl (by simp) (.done _ _))
  have hparted : IsGap .usingWord [] "using " "B;\nx" "\nx" :=
    ⟨"using", [], " ", [.name, .symbol .semicolon], rfl, after?_usingWord_iff.mpr rfl, .done _ _,
      trivia_skipTrivia " ", hlexes, by simp,
      .inl (derives_usingDirective_iff.mpr (.inr ⟨_, rfl, hcompletes⟩))⟩
  have hsecond : HasGap .usingWord [] "B;\nx" 0 "\nusing B;\nx" :=
    .here (show Trivia _ ("using ".toList ++ "B;\nx".toList) from trivia_skipTrivia _) hparted
  have hfirst : IsDeclaration ("extern alias A;".toList ++ "\nusing B;\nx".toList) "\nusing B;\nx" :=
    isDeclaration_iff.mpr rfl
  have htext : "extern alias A;".toList ++ "\nusing B;\nx".toList =
      "extern alias A;\nusing ".toList ++ "B;\nx".toList := by simp
  have hgap : HasGap .usingWord [] "B;\nx" 1 ("extern alias A;\nusing ".toList ++ "B;\nx".toList) := by
    rw [← htext]
    exact .later .refl hfirst hsecond
  obtain ⟨-, -, hlost⟩ := split_insert_comment hsplit hgap hcomment
  obtain ⟨s', hs', hdirectives, -⟩ := hlost (.inl rfl)
  exact ⟨hsplit, hgap, hcomment, s', hs', hdirectives⟩

end ScriptWeave.Header
