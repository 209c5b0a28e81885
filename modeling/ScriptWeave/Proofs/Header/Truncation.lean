import ScriptWeave.Proofs.Header.Locality

/-!
A reader of headers needs no more of a text than the part that it reads: cut off right behind that
part, the text is read just the same. Together with the reverse, by which more text behind the part
makes no difference, what follows the declarations of a header can be exchanged for anything else.
-/

namespace ScriptWeave.Header

open Text

theorem dropWhile_of_append {p : Char → Bool} {u t rest : Text}
    (h : (u ++ t).dropWhile p = rest ++ t) : u.dropWhile p = rest := by
  by_cases hu : u.dropWhile p = []
  · have hall : (u ++ t).dropWhile p = t.dropWhile p := by
      rw [List.dropWhile_append, if_pos (by simp [hu])]
    have hshort : (t.dropWhile p).length ≤ t.length := (List.dropWhile_suffix p).length_le
    rw [← hall, h, List.length_append] at hshort
    rw [hu, List.length_eq_zero_iff.mp (show rest.length = 0 by omega)]
  · rw [dropWhile_append_of_ne_nil t hu] at h
    exact List.append_cancel_right h

theorem front_of_cons {c : Char} {u t rest : Text} (h : u ++ t = c :: rest)
    (hlength : t.length ≤ rest.length) : ∃ u', u = c :: u' ∧ rest = u' ++ t := by
  cases u with
  | nil =>
      rw [List.nil_append] at h
      rw [h, List.length_cons] at hlength
      omega
  | cons d u =>
      obtain ⟨rfl, rfl⟩ := List.cons.inj h
      exact ⟨u, rfl, rfl⟩

/-! ### Trivia -/

theorem afterCommentEnd?_of_append {u t rest : Text}
    (h : afterCommentEnd? (u ++ t) = some (rest ++ t)) : afterCommentEnd? u = some rest := by
  have hlength : t.length ≤ (rest ++ t).length := by simp
  induction u with
  | nil =>
      rw [List.nil_append] at h
      -- Nothing is left of `u`, and what is found would be longer than what is searched.
      have hsuffix := (afterCommentEnd?_suffix h).length_le
      cases t with
      | nil => simp [afterCommentEnd?] at h
      | cons c t =>
          have hshorter : (rest ++ c :: t).length < (c :: t).length := by
            rw [afterCommentEnd?.eq_def] at h
            split at h
            · rename_i hstar
              obtain ⟨rfl, rfl⟩ := List.cons.inj hstar
              rw [Option.some.injEq] at h
              rw [← h, List.length_cons, List.length_cons]
              omega
            · rename_i hother
              obtain ⟨rfl, rfl⟩ := List.cons.inj hother
              exact Nat.lt_succ_of_le (afterCommentEnd?_suffix h).length_le
            · simp at h
          omega
  | cons c u ih =>
      rw [List.cons_append, afterCommentEnd?.eq_def] at h
      split at h
      · rename_i more hstar
        obtain ⟨rfl, hslash⟩ := List.cons.inj hstar
        rw [Option.some.injEq] at h
        obtain ⟨u', rfl, hmore⟩ := front_of_cons hslash (h ▸ hlength)
        rw [afterCommentEnd?, List.append_cancel_right (hmore.symm.trans h)]
      · rename_i hnot hother
        obtain ⟨rfl, rfl⟩ := List.cons.inj hother
        rw [afterCommentEnd?]
        · exact ih h
        · rintro more rfl rfl
          exact hnot (more ++ t) rfl rfl
      · simp at h

theorem afterTrivium?_of_append {u t rest : Text} (h : afterTrivium? (u ++ t) = some (rest ++ t)) :
    afterTrivium? u = some rest := by
  have hlength : t.length ≤ (rest ++ t).length := by simp
  rw [afterTrivium?.eq_def] at h
  split at h
  · rename_i more htext
    rw [Option.some.injEq] at h
    have hmore : t.length ≤ more.length := hlength.trans (h ▸ (restOfLine_suffix more).length_le)
    obtain ⟨u, rfl, hbehind⟩ := front_of_cons htext (Nat.le_succ_of_le hmore)
    obtain ⟨u, rfl, rfl⟩ := front_of_cons hbehind.symm hmore
    exact congrArg some (dropWhile_of_append h)
  · rename_i more htext
    have hmore : t.length ≤ more.length := hlength.trans (afterCommentEnd?_suffix h).length_le
    obtain ⟨u, rfl, hbehind⟩ := front_of_cons htext (Nat.le_succ_of_le hmore)
    obtain ⟨u, rfl, rfl⟩ := front_of_cons hbehind.symm hmore
    exact afterCommentEnd?_of_append h
  · rename_i more htext
    rw [Option.some.injEq] at h
    have hmore : t.length ≤ more.length := hlength.trans (h ▸ (restOfLine_suffix more).length_le)
    obtain ⟨u, rfl, rfl⟩ := front_of_cons htext hmore
    exact congrArg some (dropWhile_of_append h)
  · rename_i c more _ _ _ htext
    split at h
    · rename_i hgap
      rw [Option.some.injEq] at h
      obtain ⟨u, rfl, rfl⟩ := front_of_cons htext (h ▸ hlength)
      rw [afterTrivium?_of_isGap u hgap, List.append_cancel_right h]
    · simp at h
  · simp at h

theorem afterTrivium?_append_ne_none {u rest : Text} (h : afterTrivium? u = some rest) (t : Text) :
    afterTrivium? (u ++ t) ≠ none := by
  rw [afterTrivium?.eq_def] at h
  split at h
  · simp [afterTrivium?]
  · rename_i u
    have hcomment : afterTrivium? ('/' :: '*' :: u ++ t) = some (rest ++ t) :=
      afterCommentEnd?_append h t
    rw [hcomment]
    exact Option.some_ne_none _
  · simp [afterTrivium?]
  · rename_i c u _ _ _
    split at h
    · rename_i hgap
      rw [List.cons_append, afterTrivium?_of_isGap _ hgap]
      exact Option.some_ne_none _
    · simp at h
  · simp at h

theorem skipTrivia_of_append {u t rest : Text} (h : skipTrivia (u ++ t) = rest ++ t) :
    skipTrivia u = rest := by
  have hall : ∀ v u, v = u ++ t → skipTrivia v = rest ++ t → skipTrivia u = rest := by
    intro v
    induction v using trivia_induction with
    | stop v hv =>
        rintro u rfl hskip
        rw [skipTrivia_of_none hv] at hskip
        obtain rfl := List.append_cancel_right hskip
        refine skipTrivia_of_none (Option.eq_none_iff_forall_ne_some.mpr fun more hmore => ?_)
        exact afterTrivium?_append_ne_none hmore t hv
    | step v more hv ih =>
        rintro u rfl hskip
        rw [skipTrivia_of_some hv] at hskip
        obtain ⟨lead, hlead⟩ := skipTrivia_suffix more
        rw [hskip, ← List.append_assoc] at hlead
        subst hlead
        rw [skipTrivia_of_some (afterTrivium?_of_append hv)]
        exact ih _ rfl hskip
  exact hall _ u rfl h

theorem suffix_skipTrivia_of_blank {gap t : Text} (hgap : Consists isBlank gap)
    (hstop : afterTrivium? t = none) : t <:+ skipTrivia (gap ++ t) := by
  induction gap with
  | nil =>
      rewrite [List.nil_append, skipTrivia_of_none hstop]
      exact List.suffix_refl t
  | cons c gap ih =>
      obtain ⟨hc, hmore⟩ := List.forall_mem_cons.mp hgap
      rw [List.cons_append]
      cases hsep : isGap c with
      | true =>
          rw [skipTrivia_of_gap _ hsep]
          exact ih hmore
      | false =>
          have hslash : c ≠ '/' := fun h => absurd (h ▸ hc) (by decide)
          have hsharp : c ≠ '#' := fun h => absurd (h ▸ hc) (by decide)
          rw [skipTrivia_of_none (afterTrivium?_cons_eq_none _ hsep hslash hsharp)]
          exact (List.suffix_append gap t).trans (List.suffix_cons c _)

/-! ### Tokens -/

theorem Parts.of_append {p : Char → Bool} {t more : Text} (h : Parts p (t ++ more)) : Parts p t := by
  intro c hc
  refine h c ?_
  rw [List.head?_append, hc]
  rfl

theorem readToken?_of_append {u t rest : Text} {token : Token}
    (h : readToken? (u ++ t) = some (token, rest ++ t)) : readToken? u = some (token, rest) := by
  cases token with
  | word w =>
      rw [readToken?_word_iff, readName?_eq_some_iff] at h ⊢
      obtain ⟨htext, hname, hparts⟩ := h
      rw [← List.append_assoc] at htext
      exact ⟨List.append_cancel_right htext, hname, hparts.of_append⟩
  | symbol s =>
      rw [readToken?_symbol_iff, ← List.append_assoc] at h
      exact readToken?_symbol_iff.mpr (List.append_cancel_right h)

theorem finish_of_append {u t after last : Text} {point : Point}
    (h : finish last point (Tokens.read (u ++ t)) = .ok (after ++ t)) (last' : Text) :
    finish last' point (Tokens.read u) = .ok after := by
  have hall : ∀ v last last' point u, v = u ++ t →
      finish last point (Tokens.read v) = .ok (after ++ t) →
        finish last' point (Tokens.read u) = .ok after := by
    intro v
    induction v using tokens_induction with
    | step v ih =>
        rintro last last' point u rfl hfinish
        obtain ⟨token, rest, htoken, hways⟩ := finish_ok_iff.mp hfinish
        have hbehind : ∃ front, rest = front ++ t := by
          rcases hways with ⟨-, -, rfl⟩ | ⟨_, -, hmore⟩
          · exact ⟨after, rfl⟩
          · obtain ⟨front, rfl⟩ := finish_read hmore
            exact ⟨front ++ ';' :: after, by simp⟩
        obtain ⟨front, rfl⟩ := hbehind
        obtain ⟨lead, hlead⟩ := readToken?_suffix htoken
        rw [← List.append_assoc] at hlead
        refine finish_ok_iff.mpr ⟨token, front, ?_, ?_⟩
        · rw [skipTrivia_of_append hlead.symm]
          exact readToken?_of_append (hlead ▸ htoken)
        · rcases hways with ⟨hsemicolon, hend, hrest⟩ | ⟨next, hnext, hmore⟩
          · exact .inl ⟨hsemicolon, hend, List.append_cancel_right hrest⟩
          · exact .inr ⟨next, hnext, ih token _ htoken _ _ next front rfl hmore⟩
  exact hall _ last last' point u rfl h

/-! ### Declarations -/

theorem front_of_first {c : Char} {front rest u t : Text} (h : u ++ t = front ++ c :: rest)
    (hfront : c ∉ front) (hu : c ∈ u) : ∃ back, u = front ++ c :: back ∧ rest = back ++ t := by
  rcases List.append_eq_append_iff.mp h with ⟨more, rfl, hmore⟩ | ⟨more, rfl, hmore⟩
  · exact absurd (List.mem_append_left _ hu) hfront
  · cases more with
    | nil => simp [hfront] at hu
    | cons d back =>
        obtain ⟨rfl, hrest⟩ := List.cons.inj hmore
        exact ⟨back, rfl, hrest⟩

def isAheadChar (c : Char) : Bool := isTargetChar c || c == '='

theorem isAheadChar_of_isTargetChar {c : Char} (h : isTargetChar c = true) : isAheadChar c = true := by
  rw [isAheadChar, h, Bool.true_or]

theorem not_mem_of_consists {p : Char → Bool} {t : Text} {c : Char} (h : Consists p t)
    (hc : p c = false) : c ∉ t := by
  intro hmem
  rw [h c hmem] at hc
  exact absurd hc (by decide)

/-- The text up to the first semicolon decides, and all of it may stand behind `using`. -/
def DecidedAhead (p : Text → Prop) (t : Text) : Prop :=
  ∃ front rest, t = front ++ ';' :: rest ∧ Consists isAheadChar front ∧
    ∀ more, p (front ++ ';' :: more)

theorem DecidedAhead.prepend {p q : Text → Prop} {t : Text} (h : DecidedAhead p t) {lead : Text}
    (hlead : Consists isAheadChar lead) (hq : ∀ u, p u → q (lead ++ u)) :
    DecidedAhead q (lead ++ t) := by
  obtain ⟨front, rest, rfl, hfront, hall⟩ := h
  refine ⟨lead ++ front, rest, by simp, List.forall_mem_append.mpr ⟨hlead, hfront⟩, ?_⟩
  intro more
  rw [List.append_assoc]
  exact hq _ (hall more)

theorem consists_ahead_of_blanks {gap : Text} (h : Consists isBlank gap) :
    Consists isAheadChar gap :=
  fun c hc => isAheadChar_of_isTargetChar (isTargetChar_of_isBlank (h c hc))

theorem consists_ahead_of_word {w : Text} (h : Consists isWordChar w) : Consists isAheadChar w :=
  fun c hc => isAheadChar_of_isTargetChar (isTargetChar_of_isWordChar (h c hc))

theorem TargetFollows.decided {t : Text} (h : TargetFollows t) : DecidedAhead TargetFollows t := by
  obtain ⟨target, rest, rfl, hne, htarget⟩ := h
  exact ⟨target, rest, rfl, fun c hc => isAheadChar_of_isTargetChar (htarget c hc),
    fun more => ⟨target, more, rfl, hne, htarget⟩⟩

theorem AliasFollows.decided {t : Text} (h : AliasFollows t) : DecidedAhead AliasFollows t := by
  obtain ⟨mark, _, rfl, hmark, name, gap, rest, rfl, hne, hname, hgap, htarget⟩ := h
  have hmarkAhead : Consists isAheadChar mark := by
    rcases hmark with rfl | rfl
    · simp [Consists]
    · exact List.forall_mem_singleton.mpr (by decide)
  have hlead : Consists isAheadChar (mark ++ (name ++ (gap ++ ['=']))) := by
    simp only [Consists, List.forall_mem_append]
    exact ⟨hmarkAhead, consists_ahead_of_word hname, consists_ahead_of_blanks hgap,
      List.forall_mem_singleton.mpr (by decide)⟩
  have hall := htarget.decided.prepend (q := AliasFollows) hlead
    fun u hu => ⟨mark, name ++ (gap ++ '=' :: u), by simp, hmark, name, gap, u, rfl, hne, hname, hgap,
      hu⟩
  simpa using hall

theorem DirectiveFollows.decided {t : Text} (h : DirectiveFollows t) :
    DecidedAhead DirectiveFollows t := by
  obtain ⟨gap, more, rfl, hne, hgap, hmore⟩ := h
  have hlead := consists_ahead_of_blanks hgap
  rcases hmore with htarget | halias | ⟨gap', more', rfl, hne', hgap', halias⟩
  · exact htarget.decided.prepend hlead fun u hu => ⟨gap, u, rfl, hne, hgap, .inl hu⟩
  · exact halias.decided.prepend hlead fun u hu => ⟨gap, u, rfl, hne, hgap, .inr (.inl hu)⟩
  · have hword : Consists isWordChar "static" := List.all_eq_true.mp (by decide)
    have hstaticAhead : Consists isAheadChar ("static".toList ++ gap') :=
      List.forall_mem_append.mpr ⟨consists_ahead_of_word hword, consists_ahead_of_blanks hgap'⟩
    have hstatic := halias.decided.prepend hstaticAhead
      (q := fun u => ∃ gap' more', u = "static".toList ++ (gap' ++ more') ∧ gap' ≠ [] ∧
        Consists isBlank gap' ∧ AliasFollows more')
      fun u hu => ⟨gap', u, by simp, hne', hgap', hu⟩
    rw [List.append_assoc] at hstatic
    exact hstatic.prepend hlead fun u hu => ⟨gap, u, rfl, hne, hgap, .inr (.inr hu)⟩

theorem DirectiveFollows.of_append {u t : Text} (h : DirectiveFollows (u ++ t)) (hu : ';' ∈ u) :
    DirectiveFollows u := by
  obtain ⟨front, rest, htext, hfront, hall⟩ := h.decided
  obtain ⟨back, rfl, -⟩ := front_of_first htext (not_mem_of_consists hfront (by decide)) hu
  exact hall back

theorem KeywordFollows.of_append {word u t : Text} (h : KeywordFollows word (u ++ t))
    (hword : ';' ∉ word) (hu : ';' ∈ u) : KeywordFollows word u := by
  obtain ⟨gap, more, htext, hne, hgap, hparts⟩ := h
  rw [← List.append_assoc] at htext
  rcases List.append_eq_append_iff.mp htext with ⟨rest, hrest, -⟩ | ⟨rest, rfl, rfl⟩
  · have hmem : ';' ∈ gap ++ word := hrest ▸ List.mem_append_left _ hu
    have hnot : ';' ∉ gap := not_mem_of_consists hgap (by decide)
    exact absurd hmem (by simp [hword, hnot])
  · exact ⟨gap, rest, List.append_assoc _ _ _, hne, hgap, hparts.of_append⟩

theorem afterUsing?_of_append {u t rest : Text} (h : afterUsing? (u ++ t) = some (rest ++ t))
    (hrest : ';' ∈ rest) : afterUsing? u = some rest := by
  rw [afterUsing?_eq_some_iff] at h ⊢
  obtain ⟨htext, hfollows⟩ := h
  rw [← List.append_assoc] at htext
  exact ⟨List.append_cancel_right htext, hfollows.of_append hrest⟩

theorem Opens.of_append {u t rest : Text} {point : Point} (h : Opens (u ++ t) (rest ++ t) point)
    (hrest : ';' ∈ rest) : Opens u rest point := by
  generalize hv : u ++ t = v at h
  generalize hr : rest ++ t = r at h
  cases h with
  | directive h =>
      subst hv hr
      exact .directive (afterUsing?_of_append h hrest)
  | @globalDirective behind _ h h' =>
      subst hv hr
      obtain ⟨lead, hlead⟩ := (afterUsing?_suffix h').trans (skipTrivia_suffix behind)
      rw [← List.append_assoc] at hlead
      subst hlead
      obtain ⟨lead', hlead'⟩ := afterUsing?_suffix h'
      rw [← List.append_assoc] at hlead'
      rw [afterGlobal?_eq_some_iff] at h
      obtain ⟨htext, hfollows⟩ := h
      rw [← List.append_assoc] at htext
      have hglobal : afterGlobal? u = some (lead ++ rest) :=
        afterGlobal?_eq_some_iff.mpr ⟨List.append_cancel_right htext,
          hfollows.of_append (by decide) (List.mem_append_right _ hrest)⟩
      refine .globalDirective hglobal ?_
      rw [skipTrivia_of_append hlead'.symm]
      exact afterUsing?_of_append (hlead' ▸ h') hrest
  | externAlias h =>
      subst hv hr
      rw [afterExtern?_eq_some_iff] at h
      obtain ⟨htext, hfollows⟩ := h
      rw [← List.append_assoc] at htext
      exact .externAlias (afterExtern?_eq_some_iff.mpr
        ⟨List.append_cancel_right htext, hfollows.of_append (by decide) hrest⟩)

theorem Opens.suffix {t rest : Text} {point : Point} (h : Opens t rest point) : rest <:+ t := by
  cases h with
  | directive h => exact afterUsing?_suffix h
  | @globalDirective behind _ h h' =>
      exact (afterUsing?_suffix h').trans ((skipTrivia_suffix behind).trans (afterWord?_suffix h))
  | externAlias h => exact afterWord?_suffix h

theorem readDeclaration?_of_append {u t after : Text}
    (h : readDeclaration? (u ++ t) = some (.ok (after ++ t))) :
    readDeclaration? u = some (.ok after) := by
  rw [readDeclaration?_ok_iff] at h ⊢
  obtain ⟨rest, point, last, hopens, hfinish⟩ := h
  obtain ⟨front, rfl⟩ := finish_read hfinish
  have hbehind : front ++ ';' :: (after ++ t) = (front ++ ';' :: after) ++ t := by simp
  rw [hbehind] at hopens hfinish
  exact ⟨_, point, last, hopens.of_append (by simp), finish_of_append hfinish last⟩

theorem suffix_of_declarations {t rest : Text} {ds : List Text}
    (h : declarations t = .ok (ds, rest)) : rest <:+ t := by
  rcases declarationsWithin_ok h with ⟨-, rfl⟩ | ⟨-, front, rfl⟩
  · exact List.suffix_refl _
  · exact (List.suffix_cons ';' rest).trans (List.suffix_append front _)

theorem declarations_of_append {u t : Text} {ds : List Text} (h : declarations (u ++ t) = .ok (ds, t)) :
    declarations u = .ok (ds, []) := by
  have hall : ∀ v u ds, v = u ++ t → declarations v = .ok (ds, t) →
      declarations u = .ok (ds, []) := by
    intro v
    induction v using declarations_induction with
    | step v ih =>
        rintro u ds rfl hread
        cases hfirst : readDeclaration? (skipTrivia (u ++ t)) with
        | none =>
            rw [declarations_of_none hfirst, Except.ok.injEq, Prod.mk.injEq] at hread
            obtain ⟨rfl, htext⟩ := hread
            obtain rfl := List.append_left_eq_self.mp htext
            rfl
        | some result =>
            cases result with
            | error fault =>
                rw [declarations_of_error hfirst] at hread
                simp at hread
            | ok after =>
                rw [declarations_of_ok hfirst, prepend_eq_ok_iff] at hread
                obtain ⟨ds', hmore, rfl⟩ := hread
                obtain ⟨front, rfl⟩ := suffix_of_declarations hmore
                obtain ⟨lead, hlead⟩ := readDeclaration?_ok hfirst
                have hskip : skipTrivia (u ++ t) = (lead ++ ';' :: front) ++ t := by simp [hlead]
                rw [hskip] at hfirst ⊢
                have hskip' := skipTrivia_of_append hskip
                have hfirst' := readDeclaration?_of_append hfirst
                rw [← hskip'] at hfirst'
                rw [declarations_of_ok hfirst', ih _ (hskip ▸ hfirst) front ds' rfl hmore, hskip',
                  before_append_append]
                rfl
  exact hall _ u ds rfl h

theorem declarations_exchange {u t : Text} {ds : List Text} (h : declarations (u ++ t) = .ok (ds, t))
    (t' : Text) : declarations (u ++ t') = prepend ds (declarations t') :=
  declarations_append (declarations_of_append h) t'

end ScriptWeave.Header
