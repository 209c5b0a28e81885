import ScriptWeave.Proofs.Header.Grammar
import ScriptWeave.Proofs.Header.Locality

namespace ScriptWeave.Header

open Text

/-! ### Trivia -/

theorem oneOf_gaps : oneOf " \t\x0c\r\n" = isGap := by
  funext c
  simp [oneOf, isGap, Bool.or_assoc, beq_eq_decide]

theorem noneOf_lineEnds : noneOf "\r\n" = fun c => !isLineEnd c := by
  funext c
  simp [noneOf, isLineEnd, beq_eq_decide]

theorem after?_space_iff {t rest : Text} :
    Pattern.space.after? t = some rest ↔
      ∃ c u, t = c :: u ∧ isGap c = true ∧ u.dropWhile isGap = rest := by
  rw [Pattern.space, oneOf_gaps, Pattern.after?_oneOrMore_iff]

theorem after?_preprocessor (t : Text) :
    Pattern.preprocessor.after? t = (afterPrefix? "#" t).map restOfLine := by
  rw [Pattern.preprocessor, Pattern.after?_literal_sequence, noneOf_lineEnds]
  cases afterPrefix? "#" t with
  | none => rfl
  | some rest => exact Pattern.after?_many

theorem after?_commentEnd (t : Text) :
    (.few (fun _ => true) ++ .literal "*/" : Pattern).after? t = afterCommentEnd? t := by
  show ((Pattern.behindRuns _ t).reverse.flatMap _).head? = _
  induction t using afterCommentEnd?.induct with
  | case1 t =>
      rw [afterCommentEnd?, Pattern.behindRuns, if_pos rfl, List.reverse_append, List.flatMap_append]
      rfl
  | case2 c t hnot ih =>
      have hno : afterPrefix? "*/" (c :: t) = none := by
        rw [Option.eq_none_iff_forall_ne_some]
        intro rest hrest
        obtain ⟨hc, ht⟩ := List.cons.inj (afterPrefix?_eq_some_iff.mp hrest)
        exact hnot rest hc ht
      have hfirst : (Pattern.literal "*/").rests (c :: t) = [] := by
        rw [Pattern.rests, hno]
        rfl
      rw [afterCommentEnd?, Pattern.behindRuns, if_pos rfl, List.reverse_append, List.flatMap_append,
        List.reverse_singleton, List.flatMap_singleton, hfirst, List.nil_append]
      · exact ih
      · exact hnot
  | case3 => rfl

theorem after?_comment (t : Text) :
    Pattern.comment.after? t =
      ((afterPrefix? "//" t).map restOfLine).or ((afterPrefix? "/*" t).bind afterCommentEnd?) := by
  rw [Pattern.comment, Pattern.after?_either, Pattern.after?_assoc,
    Pattern.after?_literal_sequence, Pattern.after?_literal_sequence, noneOf_lineEnds]
  congr 1
  · cases afterPrefix? "//" t with
    | none => rfl
    | some rest => exact Pattern.after?_many
  · cases afterPrefix? "/*" t with
    | none => rfl
    | some rest => exact after?_commentEnd rest

theorem trivium_iff {t rest : Text} :
    Trivium t rest ↔ Pattern.space.after? t = some rest ∨ Pattern.comment.after? t = some rest ∨
      Pattern.preprocessor.after? t = some rest := by
  simp [Trivium, Pattern.trivia]

theorem trivium_space {c : Char} (t : Text) (hc : isGap c = true) :
    Trivium (c :: t) (t.dropWhile isGap) :=
  trivium_iff.mpr (Or.inl (after?_space_iff.mpr ⟨c, t, rfl, hc, rfl⟩))

theorem trivium_lineComment (t : Text) : Trivium ('/' :: '/' :: t) (restOfLine t) := by
  refine trivium_iff.mpr (Or.inr (Or.inl ?_))
  rw [after?_comment]
  rfl

theorem trivium_blockComment {t rest : Text} (h : afterCommentEnd? t = some rest) :
    Trivium ('/' :: '*' :: t) rest := by
  refine trivium_iff.mpr (Or.inr (Or.inl ?_))
  rw [after?_comment]
  exact h

theorem trivium_preprocessor (t : Text) : Trivium ('#' :: t) (restOfLine t) := by
  refine trivium_iff.mpr (Or.inr (Or.inr ?_))
  rw [after?_preprocessor]
  rfl

theorem Trivium.afterTrivium? {t u : Text} (h : Trivium t u) :
    ∃ rest, afterTrivium? t = some rest ∧ u <:+ rest ∧ skipTrivia rest = skipTrivia u := by
  rcases trivium_iff.mp h with hspace | hcomment | hpreprocessor
  · obtain ⟨c, t, rfl, hc, rfl⟩ := after?_space_iff.mp hspace
    exact ⟨t, afterTrivium?_of_isGap t hc, List.dropWhile_suffix _,
      (skipTrivia_dropWhile (fun _ => id) t).symm⟩
  · rw [after?_comment, Option.or_eq_some_iff, Option.map_eq_some_iff] at hcomment
    rcases hcomment with ⟨rest, hrest, rfl⟩ | ⟨-, hblock⟩
    · rw [afterPrefix?_eq_some_iff] at hrest
      exact ⟨_, by rw [hrest]; rfl, List.suffix_refl _, rfl⟩
    · obtain ⟨rest, hrest, hend⟩ := Option.bind_eq_some_iff.mp hblock
      rw [afterPrefix?_eq_some_iff] at hrest
      exact ⟨u, by rw [hrest]; exact hend, List.suffix_refl _, rfl⟩
  · rw [after?_preprocessor, Option.map_eq_some_iff] at hpreprocessor
    obtain ⟨rest, hrest, rfl⟩ := hpreprocessor
    rw [afterPrefix?_eq_some_iff] at hrest
    exact ⟨_, by rw [hrest]; rfl, List.suffix_refl _, rfl⟩

theorem exists_trivium {t rest : Text} (h : afterTrivium? t = some rest) : ∃ u, Trivium t u := by
  rw [Header.afterTrivium?.eq_def] at h
  split at h
  · exact ⟨_, trivium_lineComment _⟩
  · exact ⟨_, trivium_blockComment h⟩
  · exact ⟨_, trivium_preprocessor _⟩
  · split at h
    · rename_i hc
      exact ⟨_, trivium_space _ hc⟩
    · simp at h
  · simp at h

theorem no_trivium_iff {t : Text} :
    (∀ r ∈ Pattern.trivia, r.after? t = none) ↔ afterTrivium? t = none := by
  constructor
  · intro hnone
    rw [Option.eq_none_iff_forall_ne_some]
    intro rest hrest
    obtain ⟨u, r, hr, hu⟩ := exists_trivium hrest
    rw [hnone r hr] at hu
    simp at hu
  · intro hnone r hr
    rw [Option.eq_none_iff_forall_ne_some]
    intro u hu
    obtain ⟨rest, hrest, -⟩ := Trivium.afterTrivium? ⟨r, hr, hu⟩
    rw [hnone] at hrest
    simp at hrest

theorem Trivium.shorter {t u : Text} (h : Trivium t u) : u.length < t.length := by
  obtain ⟨rest, hrest, hsuffix, -⟩ := h.afterTrivium?
  exact Nat.lt_of_le_of_lt hsuffix.length_le (afterTrivium?_shorter hrest)

theorem Trivium.skipTrivia_eq {t u : Text} (h : Trivium t u) : skipTrivia t = skipTrivia u := by
  obtain ⟨rest, hrest, -, hskip⟩ := h.afterTrivium?
  rw [skipTrivia_of_some hrest, hskip]

theorem Trivia.skipTrivia_eq {t u : Text} (h : Trivia t u) : skipTrivia t = skipTrivia u := by
  induction h with
  | refl => rfl
  | tail _ step ih => rw [ih, step.skipTrivia_eq]

theorem trivia_skipTrivia (t : Text) : Trivia t (skipTrivia t) :=
  match ht : afterTrivium? t with
  | none => by
      rw [skipTrivia_of_none ht]
      exact Relation.ReflTransGen.refl
  | some _ => by
      obtain ⟨u, hu⟩ := exists_trivium ht
      rw [hu.skipTrivia_eq]
      have hshorter := hu.shorter
      exact Relation.ReflTransGen.head hu (trivia_skipTrivia u)
termination_by t.length

theorem trivia_stop_iff {t here : Text} (hstop : afterTrivium? here = none) :
    Trivia t here ↔ skipTrivia t = here := by
  constructor
  · intro h
    rw [h.skipTrivia_eq, skipTrivia_of_none hstop]
  · rintro rfl
    exact trivia_skipTrivia t

/-! ### Names -/

theorem after?_unmarked (c : Char) (t : Text) :
    (.one isNameStart ++ .many isWordChar : Pattern).after? (c :: t) =
      if isNameStart c then some (t.dropWhile isWordChar) else none := by
  rw [Pattern.after?_one_sequence_cons, Pattern.after?_many]

theorem after?_name (t : Text) : Pattern.name.after? t = (readName? t).map Prod.snd := by
  have hname : Pattern.name.after? t =
      ((afterPrefix? "@" t).bind (.one isNameStart ++ .many isWordChar : Pattern).after?).or
        ((.one isNameStart ++ .many isWordChar : Pattern).after? t) := by
    rw [Pattern.name, Pattern.after?_assoc, Pattern.after?_optional_sequence,
      Pattern.after?_literal_sequence]
    rfl
  rw [hname]
  cases t with
  | nil => rfl
  | cons c t =>
      by_cases hmark : c = '@'
      · subst hmark
        have hself : isNameStart '@' = false := by decide
        cases t with
        | nil => rfl
        | cons d t =>
            show ((Pattern.after? _ (d :: t)).or _) = _
            rw [after?_unmarked, after?_unmarked]
            cases hd : isNameStart d with
            | true =>
                rw [readName?_marked t hd]
                rfl
            | false => simp [readName?, hd, hself]
      · have hno : afterPrefix? "@" (c :: t) = none := if_neg (Ne.symm hmark)
        rw [hno, after?_unmarked]
        cases hc : isNameStart c with
        | true =>
            rw [readName?_plain t hc]
            rfl
        | false => simp [readName?, hc, hmark]

/-! ### Keywords -/

theorem exists_target_iff {t : Text} : (∃ u, u ∈ Pattern.target.rests t) ↔ TargetFollows t := by
  have hclass : (fun c => isWordChar c || isBlank c || oneOf ".:@<>,?[]" c) = isTargetChar := by
    funext c
    simp [oneOf, isTargetChar, Bool.or_assoc, beq_eq_decide]
  simp only [Pattern.target, hclass, Pattern.mem_sequence, Pattern.mem_oneOrMore, Pattern.mem_literal]
  constructor
  · rintro ⟨u, v, ⟨target, rfl, hne, htarget⟩, rfl⟩
    exact ⟨target, u, rfl, hne, htarget⟩
  · rintro ⟨target, rest, rfl, hne, htarget⟩
    exact ⟨rest, _, ⟨target, rfl, hne, htarget⟩, rfl⟩

theorem mem_definition_iff {t u : Text} :
    u ∈ Pattern.definition.rests t ↔
      ∃ mark name gap gap', t = mark ++ (name ++ (gap ++ '=' :: (gap' ++ u))) ∧
        (mark = [] ∨ mark = ['@']) ∧ name ≠ [] ∧ Consists isWordChar name ∧
        Consists isBlank gap ∧ Consists isBlank gap' := by
  simp only [Pattern.definition, Pattern.mem_sequence, Pattern.mem_optional, Pattern.mem_literal,
    Pattern.mem_oneOrMore, Pattern.mem_many]
  constructor
  · rintro ⟨_, ⟨_, ⟨_, ⟨t', hmark, name, rfl, hne, hname⟩, gap, rfl, hgap⟩, rfl⟩, gap', rfl, hgap'⟩
    rcases hmark with rfl | rfl
    · exact ⟨['@'], name, gap, gap', rfl, Or.inr rfl, hne, hname, hgap, hgap'⟩
    · exact ⟨[], name, gap, gap', rfl, Or.inl rfl, hne, hname, hgap, hgap'⟩
  · rintro ⟨mark, name, gap, gap', rfl, hmark, hne, hname, hgap, hgap'⟩
    refine ⟨_, ⟨_, ⟨_, ⟨_, ?_, name, rfl, hne, hname⟩, gap, rfl, hgap⟩, rfl⟩, gap', rfl, hgap'⟩
    rcases hmark with rfl | rfl
    · exact Or.inr rfl
    · exact Or.inl rfl

theorem exists_definition_iff {t : Text} :
    (∃ u ∈ Pattern.definition.rests t, TargetFollows u) ↔ AliasFollows t := by
  simp only [mem_definition_iff]
  constructor
  · rintro ⟨u, ⟨mark, name, gap, gap', rfl, hmark, hne, hname, hgap, hgap'⟩, htarget⟩
    refine ⟨mark, _, rfl, hmark, name, gap, gap' ++ u, rfl, hne, hname, hgap, ?_⟩
    exact htarget.append_left fun c hc => isTargetChar_of_isBlank (hgap' c hc)
  · rintro ⟨mark, _, rfl, hmark, name, gap, rest, rfl, hne, hname, hgap, htarget⟩
    exact ⟨rest, ⟨mark, name, gap, [], rfl, hmark, hne, hname, hgap, by simp [Consists]⟩, htarget⟩

theorem after?_usingWord_iff {t rest : Text} :
    Pattern.usingWord.after? t = some rest ↔ afterUsing? t = some rest := by
  rw [Pattern.usingWord, Pattern.after?_literal_ahead_iff, afterUsing?_eq_some_iff]
  refine and_congr_right fun _ => ?_
  simp only [Pattern.mem_sequence, Pattern.mem_optional, Pattern.mem_oneOrMore, Pattern.mem_literal]
  constructor
  · rintro ⟨u, v, ⟨v', ⟨more, ⟨gap, rfl, hne, hgap⟩, hstatic⟩, hdefinition⟩, htarget⟩
    refine ⟨gap, more, rfl, hne, hgap, ?_⟩
    have htarget : TargetFollows v := exists_target_iff.mp ⟨u, htarget⟩
    have hbehind : AliasFollows v' ∨ TargetFollows v' := by
      rcases hdefinition with hdefinition | rfl
      · exact Or.inl (exists_definition_iff.mp ⟨v, hdefinition, htarget⟩)
      · exact Or.inr htarget
    rcases hstatic with ⟨w, rfl, gap', rfl, hne', hgap'⟩ | rfl
    · rcases hbehind with halias | htarget
      · exact Or.inr (Or.inr ⟨gap', v', rfl, hne', hgap', halias⟩)
      · refine Or.inl ((htarget.append_left ?_).append_left ?_)
        · exact fun c hc => isTargetChar_of_isBlank (hgap' c hc)
        · have hstatic : Consists isWordChar "static" := List.all_eq_true.mp (by decide)
          exact fun c hc => isTargetChar_of_isWordChar (hstatic c hc)
    · rcases hbehind with halias | htarget
      · exact Or.inr (Or.inl halias)
      · exact Or.inl htarget
  · rintro ⟨gap, more, rfl, hne, hgap, htarget | halias | ⟨gap', more', rfl, hne', hgap', halias⟩⟩
    · obtain ⟨u, hu⟩ := exists_target_iff.mpr htarget
      exact ⟨u, more, ⟨more, ⟨more, ⟨gap, rfl, hne, hgap⟩, Or.inr rfl⟩, Or.inr rfl⟩, hu⟩
    · obtain ⟨v, hv, htarget⟩ := exists_definition_iff.mpr halias
      obtain ⟨u, hu⟩ := exists_target_iff.mpr htarget
      exact ⟨u, v, ⟨more, ⟨more, ⟨gap, rfl, hne, hgap⟩, Or.inr rfl⟩, Or.inl hv⟩, hu⟩
    · obtain ⟨v, hv, htarget⟩ := exists_definition_iff.mpr halias
      obtain ⟨u, hu⟩ := exists_target_iff.mpr htarget
      have hstatic : ∃ w, "static".toList ++ (gap' ++ more') = "static".toList ++ w ∧
          ∃ run, w = run ++ more' ∧ run ≠ [] ∧ Consists isBlank run :=
        ⟨_, rfl, gap', rfl, hne', hgap'⟩
      exact ⟨u, v, ⟨more', ⟨_, ⟨gap, rfl, hne, hgap⟩, Or.inl hstatic⟩, Or.inl hv⟩, hu⟩

theorem after?_keyword_iff {w word t rest : Text} :
    (.literal w ++ .ahead (.oneOrMore isBlank ++ .literal word ++ .wordEnd) : Pattern).after? t =
        some rest ↔ t = w ++ rest ∧ KeywordFollows word rest := by
  rw [Pattern.after?_literal_ahead_iff]
  refine and_congr_right fun _ => ?_
  simp only [Pattern.mem_sequence, Pattern.mem_oneOrMore, Pattern.mem_literal, Pattern.mem_wordEnd]
  constructor
  · rintro ⟨_, more, ⟨_, ⟨gap, rfl, hne, hgap⟩, rfl⟩, rfl, hparts⟩
    exact ⟨gap, more, rfl, hne, hgap, hparts⟩
  · rintro ⟨gap, more, rfl, hne, hgap, hparts⟩
    exact ⟨more, more, ⟨_, ⟨gap, rfl, hne, hgap⟩, rfl⟩, rfl, hparts⟩

theorem after?_globalWord_iff {t rest : Text} :
    Pattern.globalWord.after? t = some rest ↔ afterGlobal? t = some rest :=
  after?_keyword_iff.trans afterGlobal?_eq_some_iff.symm

theorem after?_externWord_iff {t rest : Text} :
    Pattern.externWord.after? t = some rest ↔ afterExtern? t = some rest :=
  after?_keyword_iff.trans afterExtern?_eq_some_iff.symm

theorem no_opening_iff {t : Text} :
    (∀ r ∈ Pattern.openings, r.after? t = none) ↔ readDeclaration? t = none := by
  have hopenings : (∀ r ∈ Pattern.openings, r.after? t = none) ↔
      afterUsing? t = none ∧ afterGlobal? t = none ∧ afterExtern? t = none := by
    simp only [Pattern.openings, List.forall_mem_cons, List.not_mem_nil, false_implies,
      implies_true, and_true, Option.eq_none_iff_forall_ne_some, ne_eq, after?_usingWord_iff,
      after?_globalWord_iff, after?_externWord_iff]
  rw [hopenings, readDeclaration?]
  cases husing : afterUsing? t with
  | some rest => simp
  | none =>
      cases hglobal : afterGlobal? t with
      | some rest => cases hbehind : afterUsing? (skipTrivia rest) <;> simp [hbehind]
      | none => cases hextern : afterExtern? t <;> simp

theorem isBody_iff {t : Text} :
    IsBody t ↔ afterTrivium? t = none ∧ readDeclaration? t = none := by
  have hpatterns : (∀ r ∈ Pattern.trivia ++ Pattern.openings, r.after? t = none) ↔
      afterTrivium? t = none ∧ readDeclaration? t = none := by
    rw [List.forall_mem_append, no_trivium_iff, no_opening_iff]
  rw [IsBody, hpatterns]
  constructor
  · rintro (rfl | h)
    · exact ⟨rfl, by decide⟩
    · exact h
  · exact Or.inr

/-! ### Tokens -/

/-- The kinds that a token inside a declaration may have: the words `static` and `alias` are names
as well. -/
inductive Token.IsA : Token → Terminal → Prop
  | staticWord : IsA (.word "static") .staticWord
  | aliasWord : IsA (.word "alias") .aliasWord
  | name (w : Text) : IsA (.word w) .name
  | symbol (s : Symbol) : IsA (.symbol s) (.symbol s)

def Terminal.IsInner : Terminal → Prop
  | usingWord | globalWord | externWord => False
  | _ => True

theorem matches_word_iff {w t rest : Text} :
    Pattern.name.after? t = some rest ∧ t = w ++ rest ↔
      readToken? t = some (.word w, rest) := by
  rw [after?_name, Option.map_eq_some_iff, readToken?_word_iff]
  constructor
  · rintro ⟨⟨⟨w', rest'⟩, hread, rfl⟩, ht⟩
    obtain ⟨hlead, -⟩ := readName?_eq_some_iff.mp hread
    rwa [← List.append_cancel_right (hlead.symm.trans ht)]
  · intro hread
    exact ⟨⟨(w, rest), hread, rfl⟩, (readName?_eq_some_iff.mp hread).1⟩

theorem matches_name_iff {t rest : Text} :
    Pattern.name.after? t = some rest ↔ ∃ w, readToken? t = some (.word w, rest) := by
  rw [after?_name, Option.map_eq_some_iff]
  constructor
  · rintro ⟨⟨w, rest'⟩, hread, rfl⟩
    exact ⟨w, readToken?_word_iff.mpr hread⟩
  · rintro ⟨w, hread⟩
    exact ⟨(w, rest), readToken?_word_iff.mp hread, rfl⟩

theorem matches_iff {t rest : Text} {k : Terminal} (hk : k.IsInner) :
    k.Matches t rest ↔ ∃ token, readToken? t = some (token, rest) ∧ token.IsA k := by
  cases k with
  | usingWord => exact hk.elim
  | globalWord => exact hk.elim
  | externWord => exact hk.elim
  | staticWord =>
      refine matches_word_iff.trans ⟨fun h => ⟨_, h, .staticWord⟩, ?_⟩
      rintro ⟨_, h, ⟨⟩⟩
      exact h
  | aliasWord =>
      refine matches_word_iff.trans ⟨fun h => ⟨_, h, .aliasWord⟩, ?_⟩
      rintro ⟨_, h, ⟨⟩⟩
      exact h
  | name =>
      refine matches_name_iff.trans ⟨fun ⟨w, h⟩ => ⟨_, h, .name w⟩, ?_⟩
      rintro ⟨_, h, ⟨w⟩⟩
      exact ⟨_, h⟩
  | symbol s =>
      rw [Terminal.Matches, Pattern.after?_literal, afterPrefix?_eq_some_iff,
        ← readToken?_symbol_iff]
      refine ⟨fun h => ⟨_, h, .symbol s⟩, ?_⟩
      rintro ⟨_, h, ⟨⟩⟩
      exact h

end ScriptWeave.Header
