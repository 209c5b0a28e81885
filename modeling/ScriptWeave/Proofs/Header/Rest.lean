import Mathlib.Data.List.Basic
import ScriptWeave.Header.Split

namespace ScriptWeave.Header

open Text

theorem restOfLine_suffix (t : Text) : restOfLine t <:+ t :=
  List.dropWhile_suffix _

theorem afterCommentEnd?_suffix {t rest : Text} (h : afterCommentEnd? t = some rest) :
    rest <:+ t := by
  induction t using afterCommentEnd?.induct with
  | case1 t =>
      rw [afterCommentEnd?, Option.some.injEq] at h
      subst h
      exact ⟨['*', '/'], rfl⟩
  | case2 c t hnot ih =>
      rw [afterCommentEnd?] at h
      · exact (ih h).trans (List.suffix_cons c t)
      · exact hnot
  | case3 => simp [afterCommentEnd?] at h

theorem afterTrivium?_suffix {t rest : Text} (h : afterTrivium? t = some rest) : rest <:+ t := by
  rw [afterTrivium?.eq_def] at h
  split at h
  · rename_i t
    rw [Option.some.injEq] at h
    exact h ▸ (restOfLine_suffix t).trans ⟨['/', '/'], rfl⟩
  · rename_i t
    exact (afterCommentEnd?_suffix h).trans ⟨['/', '*'], rfl⟩
  · rename_i t
    rw [Option.some.injEq] at h
    exact h ▸ (restOfLine_suffix t).trans (List.suffix_cons '#' t)
  · rename_i c t _ _ _
    split at h
    · rw [Option.some.injEq] at h
      exact h ▸ List.suffix_cons c t
    · simp at h
  · simp at h

theorem skipTriviaWithin_suffix (fuel : Nat) (t : Text) : skipTriviaWithin fuel t <:+ t := by
  induction fuel generalizing t with
  | zero => exact List.suffix_refl t
  | succ fuel ih =>
      rw [skipTriviaWithin]
      split
      · exact List.suffix_refl t
      · rename_i rest hrest
        exact (ih rest).trans (afterTrivium?_suffix hrest)

theorem skipTrivia_suffix (t : Text) : skipTrivia t <:+ t :=
  skipTriviaWithin_suffix t.length t

theorem readName?_suffix {t w rest : Text} (h : readName? t = some (w, rest)) : rest <:+ t := by
  rw [readName?.eq_def] at h
  split at h
  · simp at h
  · rename_i c t
    split at h
    · obtain ⟨-, rfl⟩ := by simpa using h
      exact (List.dropWhile_suffix _).trans (List.suffix_cons c t)
    · split at h
      · split at h
        · simp at h
        · rename_i d t
          split at h
          · obtain ⟨-, rfl⟩ := by simpa using h
            exact (List.dropWhile_suffix _).trans
              ((List.suffix_cons d t).trans (List.suffix_cons c (d :: t)))
          · simp at h
      · simp at h

theorem readSymbol?_eq {t rest : Text} {s : Symbol} (h : readSymbol? t = some (s, rest)) :
    t = s.toText ++ rest := by
  rw [readSymbol?.eq_def] at h
  split at h
  case h_11 => simp at h
  all_goals
    simp only [Option.some.injEq, Prod.mk.injEq] at h
    obtain ⟨rfl, rfl⟩ := h
    rfl

theorem readToken?_suffix {t rest : Text} {token : Token} (h : readToken? t = some (token, rest)) :
    rest <:+ t := by
  rw [readToken?] at h
  split at h
  · rename_i w rest' hname
    obtain ⟨-, rfl⟩ := by simpa using h
    exact readName?_suffix hname
  · obtain ⟨⟨s, rest'⟩, hsymbol, heq⟩ := Option.map_eq_some_iff.mp h
    obtain ⟨-, rfl⟩ := by simpa using heq
    exact ⟨s.toText, (readSymbol?_eq hsymbol).symm⟩

theorem readToken?_semicolon {t rest : Text}
    (h : readToken? t = some (.symbol .semicolon, rest)) : t = ';' :: rest := by
  rw [readToken?] at h
  split at h
  · simp at h
  · obtain ⟨⟨s, rest'⟩, hsymbol, heq⟩ := Option.map_eq_some_iff.mp h
    obtain ⟨rfl, rfl⟩ := by simpa using heq
    exact readSymbol?_eq hsymbol

def BehindSemicolon (rest t : Text) : Prop := ∃ front, t = front ++ ';' :: rest

theorem behindSemicolon_of_suffix {rest t t' : Text} (h : BehindSemicolon rest t)
    (hsuffix : t <:+ t') : BehindSemicolon rest t' := by
  obtain ⟨front, rfl⟩ := h
  obtain ⟨lead, rfl⟩ := hsuffix
  exact ⟨lead ++ front, by rw [List.append_assoc]⟩

theorem readWithin_none {fuel : Nat} {t : Text} (h : readToken? (skipTrivia t) = none) :
    Tokens.readWithin (fuel + 1) t = .stuck (skipTrivia t) := by
  simp [Tokens.readWithin, h]

theorem readWithin_semicolon {fuel : Nat} {t after : Text}
    (h : readToken? (skipTrivia t) = some (.symbol .semicolon, after)) :
    Tokens.readWithin (fuel + 1) t = .closed (skipTrivia t) after := by
  simp [Tokens.readWithin, h]

theorem readWithin_more {fuel : Nat} {t after : Text} {token : Token}
    (h : readToken? (skipTrivia t) = some (token, after)) (hne : token ≠ .symbol .semicolon) :
    Tokens.readWithin (fuel + 1) t =
      .more (skipTrivia t) token (Tokens.readWithin fuel after) := by
  rw [Tokens.readWithin, h]
  split
  · rename_i heq
    simp at heq
  · rename_i heq
    simp only [Option.some.injEq, Prod.mk.injEq] at heq
    exact absurd heq.1 hne
  · rename_i heq
    simp only [Option.some.injEq, Prod.mk.injEq] at heq
    rw [heq.1, heq.2]

theorem finish_read {fuel : Nat} {last t after : Text} {point : Point}
    (h : finish last point (Tokens.readWithin fuel t) = .ok after) : BehindSemicolon after t := by
  induction fuel generalizing last t point with
  | zero =>
      rw [Tokens.readWithin] at h
      cases t <;> simp [finish] at h
  | succ fuel ih =>
      apply behindSemicolon_of_suffix (t := skipTrivia t) _ (skipTrivia_suffix t)
      cases htoken : readToken? (skipTrivia t) with
      | none =>
          rw [readWithin_none htoken] at h
          cases hrest : skipTrivia t <;> simp [hrest, finish] at h
      | some found =>
          obtain ⟨token, rest⟩ := found
          by_cases hsemicolon : token = .symbol .semicolon
          · subst hsemicolon
            rw [readWithin_semicolon htoken, finish.eq_def] at h
            dsimp only at h
            split at h
            · rw [Except.ok.injEq] at h
              subst h
              exact ⟨[], readToken?_semicolon htoken⟩
            · simp at h
          · rw [readWithin_more htoken hsemicolon, finish.eq_def] at h
            dsimp only at h
            split at h
            · exact behindSemicolon_of_suffix (ih h) (readToken?_suffix htoken)
            · split at h <;> simp at h

theorem afterUsing?_suffix {t rest : Text} (h : afterUsing? t = some rest) : rest <:+ t := by
  rw [afterUsing?] at h
  cases hlead : afterPrefix? "using" t with
  | none => simp only [hlead, reduceCtorEq] at h
  | some rest' =>
      simp only [hlead, Option.ite_none_right_eq_some, Option.some.injEq] at h
      exact ⟨_, h.2 ▸ (afterPrefix?_eq_some_iff.mp hlead).symm⟩

theorem afterWord?_suffix {lead t rest : Text} {ahead : Text → Bool}
    (h : (afterPrefix? lead t).filter ahead = some rest) : rest <:+ t := by
  rw [Option.filter_eq_some_iff] at h
  exact ⟨lead, (afterPrefix?_eq_some_iff.mp h.1).symm⟩

theorem readDeclaration?_ok {t after : Text} (h : readDeclaration? t = some (.ok after)) :
    BehindSemicolon after t := by
  rw [readDeclaration?] at h
  split at h
  · rename_i rest hrest
    rw [Option.some.injEq] at h
    exact behindSemicolon_of_suffix (finish_read h) (afterUsing?_suffix hrest)
  · split at h
    · rename_i rest hrest
      dsimp only at h
      split at h
      · rename_i rest' hrest'
        rw [Option.some.injEq] at h
        exact behindSemicolon_of_suffix (finish_read h)
          ((afterUsing?_suffix hrest').trans
            ((skipTrivia_suffix rest).trans (afterWord?_suffix hrest)))
      · simp at h
    · split at h
      · rename_i rest hrest
        rw [Option.some.injEq] at h
        exact behindSemicolon_of_suffix (finish_read h) (afterWord?_suffix hrest)
      · simp at h

theorem declarationsWithin_ok {fuel : Nat} {t rest : Text} {ds : List Text}
    (h : declarationsWithin fuel t = .ok (ds, rest)) :
    (ds = [] ∧ rest = t) ∨ (ds ≠ [] ∧ BehindSemicolon rest t) := by
  induction fuel generalizing t ds with
  | zero =>
      rw [declarationsWithin, Except.ok.injEq, Prod.mk.injEq] at h
      exact Or.inl ⟨h.1.symm, h.2.symm⟩
  | succ fuel ih =>
      rw [declarationsWithin] at h
      cases hread : readDeclaration? (skipTrivia t) with
      | none =>
          simp only [hread, Except.ok.injEq, Prod.mk.injEq] at h
          exact Or.inl ⟨h.1.symm, h.2.symm⟩
      | some result =>
          cases result with
          | error fault => simp [hread] at h
          | ok after =>
              have hafter := behindSemicolon_of_suffix (readDeclaration?_ok hread)
                (skipTrivia_suffix t)
              simp only [hread] at h
              cases hmore : declarationsWithin fuel after with
              | error fault => simp [hmore] at h
              | ok found =>
                  obtain ⟨ds', rest'⟩ := found
                  simp only [hmore, Except.ok.injEq, Prod.mk.injEq] at h
                  obtain ⟨rfl, rfl⟩ := h
                  refine Or.inr ⟨by simp, ?_⟩
                  rcases ih hmore with ⟨-, rfl⟩ | ⟨-, hrest⟩
                  · exact hafter
                  · obtain ⟨front, rfl⟩ := hafter
                    exact behindSemicolon_of_suffix hrest
                      ((List.suffix_cons ';' _).trans (List.suffix_append front _))

end ScriptWeave.Header
