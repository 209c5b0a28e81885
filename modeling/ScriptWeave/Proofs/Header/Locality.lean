import ScriptWeave.Proofs.Header.Lookahead
import ScriptWeave.Proofs.Header.Steps

namespace ScriptWeave.Header

open Text

theorem dropWhile_append_of_ne_nil {p : Char → Bool} {u : Text} (t : Text)
    (h : u.dropWhile p ≠ []) : (u ++ t).dropWhile p = u.dropWhile p ++ t := by
  rw [List.dropWhile_append, if_neg (by simp [h])]

/-- The text ends with a line feed, so no line goes on behind it. -/
def EndsLine (t : Text) : Prop := t.getLast? = some '\n'

theorem EndsLine.of_suffix {t rest : Text} (h : EndsLine t) (hsuffix : rest <:+ t)
    (hne : rest ≠ []) : EndsLine rest := by
  obtain ⟨lead, rfl⟩ := hsuffix
  rwa [EndsLine, List.getLast?_append_of_ne_nil lead hne] at h

theorem EndsLine.ne_nil {t : Text} (h : EndsLine t) : t ≠ [] := by
  rintro rfl
  simp [EndsLine] at h

theorem EndsLine.dropWhile_ne_nil {t : Text} (h : EndsLine t) {p : Char → Bool}
    (hp : p '\n' = false) : t.dropWhile p ≠ [] := by
  intro hnil
  rw [List.dropWhile_eq_nil_iff] at hnil
  have hlast := hnil '\n' (List.mem_of_getLast? h)
  rw [hp] at hlast
  exact absurd hlast (by decide)

/-! ### Trivia -/

theorem afterCommentEnd?_append {u rest : Text} (h : afterCommentEnd? u = some rest) (t : Text) :
    afterCommentEnd? (u ++ t) = some (rest ++ t) := by
  induction u using afterCommentEnd?.induct with
  | case1 u =>
      rw [afterCommentEnd?, Option.some.injEq] at h
      rw [h]
      rfl
  | case2 c u hnot ih =>
      rw [afterCommentEnd?] at h
      · rw [List.cons_append, afterCommentEnd?]
        · exact ih h
        · intro rest' hc hu
          cases u with
          | nil => simp [afterCommentEnd?] at h
          | cons d u => exact hnot u hc (by simpa using (List.cons.inj hu).1)
      · exact hnot
  | case3 => simp [afterCommentEnd?] at h

theorem restOfLine_append {u : Text} (h : restOfLine u ≠ []) (t : Text) :
    restOfLine (u ++ t) = restOfLine u ++ t :=
  dropWhile_append_of_ne_nil t h

theorem restOfLine_ne_nil (lead : Text) {u : Text} (hlead : '\n' ∉ lead)
    (h : restOfLine u ≠ [] ∨ EndsLine (lead ++ u)) : restOfLine u ≠ [] := by
  rcases h with h | h
  · exact h
  · have hne : u ≠ [] := by
      rintro rfl
      rw [List.append_nil] at h
      exact hlead (List.mem_of_getLast? h)
    exact (h.of_suffix (List.suffix_append lead u) hne).dropWhile_ne_nil rfl

theorem afterTrivium?_append {u rest : Text} (h : afterTrivium? u = some rest)
    (hend : rest ≠ [] ∨ EndsLine u) (t : Text) : afterTrivium? (u ++ t) = some (rest ++ t) := by
  rw [afterTrivium?.eq_def] at h
  split at h
  · rename_i u
    rw [Option.some.injEq] at h
    subst h
    have hne := restOfLine_ne_nil ['/', '/'] (by decide) hend
    exact congrArg some (restOfLine_append hne t)
  · rename_i u
    exact afterCommentEnd?_append h t
  · rename_i u
    rw [Option.some.injEq] at h
    subst h
    have hne := restOfLine_ne_nil ['#'] (by decide) hend
    exact congrArg some (restOfLine_append hne t)
  · rename_i c u _ _ _
    split at h
    · rename_i hgap
      rw [Option.some.injEq] at h
      subst h
      exact afterTrivium?_of_isGap (u ++ t) hgap
    · simp at h
  · simp at h

/-- Behind what is skipped at the start of a text, skipping goes on as if the start were not there,
unless a comment without an end of its own is cut off. -/
theorem skipTrivia_append {u : Text} (h : skipTrivia u ≠ [] ∨ EndsLine u) (t : Text) :
    skipTrivia (u ++ t) = skipTrivia (skipTrivia u ++ t) := by
  induction u using trivia_induction with
  | stop u hu => rw [skipTrivia_of_none hu]
  | step u rest hu ih =>
      have hskip := skipTrivia_of_some hu
      have hend : rest ≠ [] ∨ EndsLine u := by
        refine h.imp_left ?_
        rintro hne rfl
        exact hne (hskip.trans skipTrivia_nil)
      rw [skipTrivia_of_some (afterTrivium?_append hu hend t), hskip]
      by_cases hrest : rest = []
      · rw [hrest, skipTrivia_nil]
      · refine ih (h.imp ?_ ?_)
        · exact fun hne => hskip ▸ hne
        · exact fun hline => hline.of_suffix (afterTrivium?_suffix hu) hrest

theorem skipTrivia_append_of_stop {u t : Text} (h : skipTrivia u ≠ [])
    (hstop : afterTrivium? (skipTrivia u ++ t) = none) :
    skipTrivia (u ++ t) = skipTrivia u ++ t := by
  rw [skipTrivia_append (Or.inl h), skipTrivia_of_none hstop]

/-! ### Tokens -/

theorem afterTrivium?_cons_eq_none {c : Char} (t : Text) (hgap : isGap c = false) (hslash : c ≠ '/')
    (hsharp : c ≠ '#') : afterTrivium? (c :: t) = none := by
  rw [afterTrivium?, if_neg (by simp [hgap])]
  · rintro rest rfl -
    exact hslash rfl
  · rintro rest rfl -
    exact hslash rfl
  · rintro rfl
    exact hsharp rfl

theorem isBlank_of_isGap {c : Char} (h : isGap c = true) : isBlank c = true := by
  simp only [isGap, Bool.or_eq_true, beq_iff_eq] at h
  rcases h with (((rfl | rfl) | rfl) | rfl) | rfl <;> decide

theorem afterTrivium?_of_isWordChar {c : Char} (t : Text) (hc : isWordChar c = true) :
    afterTrivium? (c :: t) = none := by
  refine afterTrivium?_cons_eq_none t ?_ ?_ ?_
  · by_contra hgap
    have hblank := isBlank_of_isGap (Bool.of_not_eq_false hgap)
    rw [not_isBlank_of_isWordChar hc] at hblank
    exact absurd hblank (by decide)
  · rintro rfl
    exact absurd hc (by decide)
  · rintro rfl
    exact absurd hc (by decide)

theorem Parts.append {p : Char → Bool} {t : Text} (h : Parts p t) (hne : t ≠ []) (more : Text) :
    Parts p (t ++ more) := by
  obtain ⟨c, t, rfl⟩ := List.exists_cons_of_ne_nil hne
  exact parts_cons _ (h c rfl)

theorem readName?_append {u w rest : Text} (h : readName? u = some (w, rest)) (hrest : rest ≠ [])
    (t : Text) : readName? (u ++ t) = some (w, rest ++ t) := by
  rw [readName?_eq_some_iff] at h ⊢
  obtain ⟨rfl, hname, hparts⟩ := h
  exact ⟨List.append_assoc _ _ _, hname, hparts.append hrest t⟩

theorem readName?_symbol (s : Symbol) (t : Text) : readName? (s.toText ++ t) = none := by
  rw [Option.eq_none_iff_forall_ne_some]
  rintro ⟨w, rest⟩ h
  rw [readName?_eq_some_iff] at h
  obtain ⟨ht, ⟨mark, c, body, rfl, hmark, hc, -⟩, -⟩ := h
  have hword : isWordChar c = true := isWordChar_of_isNameStart hc
  rcases hmark with rfl | rfl
  · cases s <;> obtain ⟨rfl, -⟩ := List.cons.inj ht <;> exact absurd hword (by decide)
  · cases s <;> exact absurd (List.cons.inj ht).1 (by decide)

theorem readSymbol?_toText (s : Symbol) (t : Text) :
    readSymbol? (s.toText ++ t) = some (s, t) := by
  cases s <;> rfl

theorem readToken?_symbol_iff {t rest : Text} {s : Symbol} :
    readToken? t = some (.symbol s, rest) ↔ t = s.toText ++ rest := by
  constructor
  · intro h
    rw [readToken?] at h
    split at h
    · simp at h
    · obtain ⟨⟨s', rest'⟩, hsymbol, heq⟩ := Option.map_eq_some_iff.mp h
      obtain ⟨rfl, rfl⟩ := by simpa using heq
      exact readSymbol?_eq hsymbol
  · rintro rfl
    rw [readToken?, readName?_symbol, readSymbol?_toText]
    rfl

theorem readToken?_word_iff {t w rest : Text} :
    readToken? t = some (.word w, rest) ↔ readName? t = some (w, rest) := by
  rw [readToken?]
  cases readName? t with
  | none => simp
  | some found => simp [Prod.ext_iff]

theorem readToken?_append {u rest : Text} {token : Token}
    (h : readToken? u = some (token, rest)) (hrest : rest ≠ []) (t : Text) :
    readToken? (u ++ t) = some (token, rest ++ t) := by
  cases token with
  | word w => exact readToken?_word_iff.mpr (readName?_append (readToken?_word_iff.mp h) hrest t)
  | symbol s =>
      rw [readToken?_symbol_iff] at h ⊢
      rw [h, List.append_assoc]

theorem afterTrivium?_of_token {u rest : Text} {token : Token}
    (h : readToken? u = some (token, rest)) (t : Text) : afterTrivium? (u ++ t) = none := by
  cases token with
  | word w =>
      rw [readToken?_word_iff, readName?_eq_some_iff] at h
      obtain ⟨rfl, ⟨mark, c, body, rfl, rfl | rfl, hc, -⟩, -⟩ := h
      · exact afterTrivium?_of_isWordChar _ (isWordChar_of_isNameStart hc)
      · rfl
  | symbol s =>
      rw [readToken?_symbol_iff.mp h]
      cases s <;> rfl

theorem finish_append {u after last : Text} {point : Point}
    (h : finish last point (Tokens.read u) = .ok after) (last' t : Text) :
    finish last' point (Tokens.read (u ++ t)) = .ok (after ++ t) := by
  induction u using tokens_induction generalizing last last' point with
  | step u ih =>
      obtain ⟨token, rest, htoken, hways⟩ := finish_ok_iff.mp h
      have hne : skipTrivia u ≠ [] := by
        intro hnil
        simp [hnil, readToken?, readName?, readSymbol?] at htoken
      have hskip : skipTrivia (u ++ t) = skipTrivia u ++ t :=
        skipTrivia_append_of_stop hne (afterTrivium?_of_token htoken t)
      refine finish_ok_iff.mpr ⟨token, rest ++ t, ?_, ?_⟩
      · rw [hskip]
        rcases hways with ⟨rfl, -, -⟩ | ⟨next, -, hfinish⟩
        · rw [readToken?_symbol_iff] at htoken ⊢
          rw [htoken, List.append_assoc]
        · obtain ⟨front, hfront⟩ := finish_read hfinish
          exact readToken?_append htoken (by simp [hfront]) t
      · rcases hways with ⟨htoken, hend, rfl⟩ | ⟨next, hnext, hfinish⟩
        · exact Or.inl ⟨htoken, hend, rfl⟩
        · exact Or.inr ⟨next, hnext, ih token rest htoken hfinish _⟩

/-! ### Declarations -/

theorem BehindSemicolon.mem {rest t : Text} (h : BehindSemicolon rest t) : ';' ∈ t := by
  obtain ⟨front, rfl⟩ := h
  simp

theorem afterUsing?_append {u rest : Text} (h : afterUsing? u = some rest) (t : Text) :
    afterUsing? (u ++ t) = some (rest ++ t) := by
  rw [afterUsing?_eq_some_iff] at h ⊢
  obtain ⟨rfl, hfollows⟩ := h
  exact ⟨List.append_assoc _ _ _, hfollows.append_right t⟩

theorem afterUsing?_of_other {c : Char} (t : Text) (hc : c ≠ 'u') :
    afterUsing? (c :: t) = none := by
  rw [Option.eq_none_iff_forall_ne_some]
  intro rest h
  rw [afterUsing?_eq_some_iff] at h
  exact hc (List.cons.inj h.1).1

theorem afterGlobal?_of_other {c : Char} (t : Text) (hc : c ≠ 'g') :
    afterGlobal? (c :: t) = none := by
  rw [Option.eq_none_iff_forall_ne_some]
  intro rest h
  rw [afterGlobal?_eq_some_iff] at h
  exact hc (List.cons.inj h.1).1

/-- The ways in which a declaration opens: each is read behind its keyword. -/
inductive Opens : Text → Text → Point → Prop
  | directive {t rest : Text} (h : afterUsing? t = some rest) : Opens t rest .opening
  | globalDirective {t rest rest' : Text} (h : afterGlobal? t = some rest)
      (h' : afterUsing? (skipTrivia rest) = some rest') : Opens t rest' .opening
  | externAlias {t rest : Text} (h : afterExtern? t = some rest) : Opens t rest .aliasWord

theorem Opens.afterTrivium?_append {t rest : Text} {point : Point} (h : Opens t rest point)
    (more : Text) : afterTrivium? (t ++ more) = none := by
  cases h with
  | directive h =>
      obtain ⟨rfl, -⟩ := afterUsing?_eq_some_iff.mp h
      exact afterTrivium?_of_isWordChar _ (by decide)
  | globalDirective h h' =>
      obtain ⟨rfl, -⟩ := afterGlobal?_eq_some_iff.mp h
      exact afterTrivium?_of_isWordChar _ (by decide)
  | externAlias h =>
      obtain ⟨rfl, -⟩ := afterExtern?_eq_some_iff.mp h
      exact afterTrivium?_of_isWordChar _ (by decide)

theorem Opens.readDeclaration? {t rest : Text} {point : Point} (h : Opens t rest point) :
    ∃ last, readDeclaration? t = some (finish last point (Tokens.read rest)) := by
  cases h with
  | directive h =>
      refine ⟨t, ?_⟩
      rw [Header.readDeclaration?, h]
  | @globalDirective rest _ h h' =>
      refine ⟨skipTrivia rest, ?_⟩
      have husing : afterUsing? t = none := by
        obtain ⟨rfl, -⟩ := afterGlobal?_eq_some_iff.mp h
        exact afterUsing?_of_other _ (by decide)
      simp only [Header.readDeclaration?, husing, h, h']
  | externAlias h =>
      refine ⟨t, ?_⟩
      obtain ⟨ht, -⟩ := afterExtern?_eq_some_iff.mp h
      have husing : afterUsing? t = none := ht ▸ afterUsing?_of_other _ (by decide)
      have hglobal : afterGlobal? t = none := ht ▸ afterGlobal?_of_other _ (by decide)
      simp only [Header.readDeclaration?, husing, hglobal, h]

theorem readDeclaration?_ok_iff {t after : Text} :
    readDeclaration? t = some (.ok after) ↔
      ∃ rest point last, Opens t rest point ∧ finish last point (Tokens.read rest) = .ok after := by
  constructor
  · intro h
    rw [readDeclaration?] at h
    split at h
    · rename_i rest hrest
      exact ⟨rest, .opening, t, .directive hrest, Option.some.inj h⟩
    · split at h
      · rename_i rest hrest
        dsimp only at h
        split at h
        · rename_i rest' hrest'
          exact ⟨rest', .opening, _, .globalDirective hrest hrest', Option.some.inj h⟩
        · simp at h
      · split at h
        · rename_i rest hrest
          exact ⟨rest, .aliasWord, t, .externAlias hrest, Option.some.inj h⟩
        · simp at h
  · rintro ⟨rest, point, last, hopens, hfinish⟩
    obtain ⟨last', hread⟩ := hopens.readDeclaration?
    have hlocal := finish_append hfinish last' []
    rw [List.append_nil, List.append_nil] at hlocal
    rw [hread, hlocal]

theorem Opens.append {t rest : Text} {point : Point} (h : Opens t rest point)
    (hrest : ';' ∈ rest) (more : Text) : Opens (t ++ more) (rest ++ more) point := by
  cases h with
  | directive h => exact .directive (afterUsing?_append h more)
  | @globalDirective rest' _ h h' =>
      have hsuffix : rest <:+ rest' := (afterUsing?_suffix h').trans (skipTrivia_suffix rest')
      have hglobal : afterGlobal? (t ++ more) = some (rest' ++ more) := by
        rw [afterGlobal?_eq_some_iff] at h ⊢
        obtain ⟨rfl, hfollows⟩ := h
        exact ⟨List.append_assoc _ _ _,
          hfollows.append_right more (by decide) (hsuffix.subset hrest)⟩
      have husing : Opens (skipTrivia rest') rest .opening := .directive h'
      have hne : skipTrivia rest' ≠ [] := by
        intro hnil
        rw [hnil, afterUsing?_eq_some_iff] at h'
        exact absurd h'.1 (by simp)
      refine .globalDirective hglobal ?_
      rw [skipTrivia_append_of_stop hne (husing.afterTrivium?_append more)]
      exact afterUsing?_append h' more
  | externAlias h =>
      refine .externAlias ?_
      rw [afterExtern?_eq_some_iff] at h ⊢
      obtain ⟨rfl, hfollows⟩ := h
      exact ⟨List.append_assoc _ _ _, hfollows.append_right more (by decide) hrest⟩

theorem readDeclaration?_append {u after : Text} (h : readDeclaration? u = some (.ok after))
    (t : Text) : readDeclaration? (u ++ t) = some (.ok (after ++ t)) := by
  rw [readDeclaration?_ok_iff] at h ⊢
  obtain ⟨rest, point, last, hopens, hfinish⟩ := h
  have hmem : ';' ∈ rest := (finish_read hfinish).mem
  exact ⟨rest ++ t, point, last, hopens.append hmem t, finish_append hfinish last t⟩

theorem skipTrivia_append_of_declaration {u after : Text}
    (h : readDeclaration? (skipTrivia u) = some (.ok after)) (t : Text) :
    skipTrivia (u ++ t) = skipTrivia u ++ t := by
  obtain ⟨rest, point, last, hopens, -⟩ := readDeclaration?_ok_iff.mp h
  refine skipTrivia_append_of_stop ?_ (hopens.afterTrivium?_append t)
  intro hnil
  have hempty := readDeclaration?_skipTrivia_shorter (t := []) (hnil ▸ h)
  exact Nat.not_lt_zero _ hempty

theorem before_append_append (u after t : Text) : before (u ++ t) (after ++ t) = before u after := by
  rw [before, before, List.length_append, List.length_append, Nat.add_sub_add_right,
    List.take_append_of_le_length (Nat.sub_le _ _)]

theorem declarations_append {u rest : Text} {ds : List Text} (h : declarations u = .ok (ds, rest))
    (t : Text) : declarations (u ++ t) = prepend ds (declarations (rest ++ t)) := by
  induction u using declarations_induction generalizing ds with
  | step u ih =>
      cases hread : readDeclaration? (skipTrivia u) with
      | none =>
          rw [declarations_of_none hread, Except.ok.injEq, Prod.mk.injEq] at h
          obtain ⟨rfl, rfl⟩ := h
          exact (prepend_nil _).symm
      | some result =>
          cases result with
          | error fault =>
              rw [declarations_of_error hread] at h
              simp at h
          | ok after =>
              rw [declarations_of_ok hread, prepend_eq_ok_iff] at h
              obtain ⟨ds', hafter, rfl⟩ := h
              have happend : readDeclaration? (skipTrivia (u ++ t)) = some (.ok (after ++ t)) := by
                rw [skipTrivia_append_of_declaration hread]
                exact readDeclaration?_append hread t
              rw [declarations_of_ok happend, skipTrivia_append_of_declaration hread,
                before_append_append, ih after hread hafter, prepend_prepend]

end ScriptWeave.Header
