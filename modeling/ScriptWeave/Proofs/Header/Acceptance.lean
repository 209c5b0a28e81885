import ScriptWeave.Proofs.Header.Derivation
import ScriptWeave.Proofs.Header.Concatenation

/-!
A text splits exactly if it factors by the grammar of headers, and the directives of the split are
the declarations of the factors. Since every point of a declaration stands for what the grammar lets
follow, the recogniser finishes a declaration exactly where the grammar derives one.
-/

namespace ScriptWeave.Header

open Text

theorem Token.IsA.isInner {token : Token} {k : Terminal} (h : token.IsA k) : k.IsInner := by
  cases h <;> trivial

theorem exists_lexes (previous : Terminal) {t last after : Text} {p : Point}
    (h : finish last p (Tokens.read t) = .ok after)
    (hprevious : previous = .usingWord → p = .opening) :
    ∃ ks, Lexes previous t ks after ∧ Completes p ks := by
  induction t using tokens_induction generalizing previous last p with
  | step t ih =>
      obtain ⟨token, rest, hread, hways⟩ := finish_ok_iff.mp h
      have hisA := p.isA_kind token
      have hmatches : (p.kind token).Matches (skipTrivia t) rest :=
        (matches_iff hisA.isInner).mpr ⟨token, hread, hisA⟩
      have hstatic : previous = .usingWord → p.kind token = .name →
          skipTrivia t ≠ "static".toList ++ rest := by
        intro husing hname htext
        rw [hprevious husing] at hname
        have hword : readToken? (skipTrivia t) = some (.word "static", rest) :=
          matches_word_iff.mp ⟨matches_name_iff.mpr ?_, htext⟩
        · rw [hread, Option.some.injEq, Prod.mk.injEq] at hword
          rw [hword.1] at hname
          exact absurd hname (by decide)
        · cases token with
          | word w => exact ⟨w, hread⟩
          | symbol s => simp [Point.kind_symbol] at hname
      rcases hways with ⟨htoken, hend, rfl⟩ | ⟨q, hnext, hfinish⟩
      · refine ⟨[p.kind token], .more (trivia_skipTrivia t) hmatches hstatic (.done _ _), ?_⟩
        exact (p.completes_kind_iff token).mpr (Or.inl ⟨htoken, hend, rfl⟩)
      · have hinner : p.kind token = .usingWord → q = .opening := by
          intro husing
          rw [husing] at hisA
          exact hisA.isInner.elim
        obtain ⟨ks, hlexes, hcompletes⟩ := ih token rest hread (p.kind token) hfinish hinner
        refine ⟨p.kind token :: ks, .more (trivia_skipTrivia t) hmatches hstatic hlexes, ?_⟩
        exact (p.completes_kind_iff token).mpr (Or.inr ⟨q, hnext, hcompletes⟩)

theorem Point.Awaits.isInner {p : Point} {k : Terminal} (h : p.Awaits k) : k.IsInner := by
  cases p with
  | opening => rcases h with rfl | rfl <;> trivial
  | target | name depth | part depth | aliasTarget | aliasWord =>
      obtain rfl : k = _ := h
      trivial
  | _ =>
      obtain ⟨s, rfl⟩ := h
      trivial

theorem Point.next_ne_opening {p q : Point} {token : Token} (h : p.next token = some q) :
    q ≠ .opening := by
  rintro rfl
  cases token with
  | word w =>
      cases p with
      | opening | aliasWord =>
          rw [next] at h
          split at h <;> simp at h
      | _ => simp [next] at h
  | symbol s =>
      cases p with
      | firstName => cases s <;> simp [next, afterWord, afterPart, afterArgument] at h
      | headName depth | partName depth | closedList depth | suffix depth | rank depth =>
          cases depth <;> cases s <;> simp [next, afterWord, afterPart, afterArgument] at h
      | _ => simp [next] at h

theorem finish_of_lexes {previous : Terminal} {t last after : Text} {p : Point}
    {ks : List Terminal} (h : Lexes previous t ks after) (hcompletes : Completes p ks)
    (hp : p = .opening → previous = .usingWord) :
    finish last p (Tokens.read t) = .ok after := by
  induction h generalizing last p with
  | done previous t =>
      obtain ⟨k, ks', hnil, -⟩ := Point.exists_awaited hcompletes
      simp at hnil
  | @more previous k t here behind rest ks htrivia hmatched hstatic hmore ih =>
      have hinner := (Point.awaits_of_completes hcompletes).isInner
      obtain ⟨token, hread, hisA⟩ := (matches_iff hinner).mp hmatched
      have hskip : skipTrivia t = here := by
        have hstop := afterTrivium?_of_token hread []
        rw [List.append_nil] at hstop
        exact (trivia_stop_iff hstop).mp htrivia
      have hkind : p.kind token = k := by
        refine Point.kind_eq hcompletes hisA fun hopening hname htoken => ?_
        subst htoken
        exact hstatic (hp hopening) hname (matches_word_iff.mpr hread).2
      rw [← hkind, Point.completes_kind_iff] at hcompletes
      refine finish_ok_iff.mpr ⟨token, behind, by rw [hskip, hread], ?_⟩
      rcases hcompletes with ⟨htoken, hend, rfl⟩ | ⟨q, hnext, hcompletes⟩
      · cases hmore
        exact Or.inl ⟨htoken, hend, rfl⟩
      · exact Or.inr ⟨q, hnext, ih hcompletes fun hq => absurd hq (Point.next_ne_opening hnext)⟩

theorem derives_usingDirective_iff {ks : List Terminal} :
    Derives (.rule .usingDirective) ks ↔
      (∃ ks', ks = .globalWord :: .usingWord :: ks' ∧ Completes .opening ks') ∨
        ∃ ks', ks = .usingWord :: ks' ∧ Completes .opening ks' := by
  rw [derives_rule_iff, Rule.production, derives_assoc, derives_assoc, derives_assoc, derives_assoc,
    derives_optional, derives_token_first]
  refine or_congr ?_ derives_token_first
  constructor
  · rintro ⟨_, rfl, husing⟩
    obtain ⟨ks', rfl, hcompletes⟩ := derives_token_first.mp husing
    exact ⟨ks', rfl, hcompletes⟩
  · rintro ⟨ks', rfl, hcompletes⟩
    exact ⟨_, rfl, derives_token_first.mpr ⟨ks', rfl, hcompletes⟩⟩

theorem derives_externAlias_iff {ks : List Terminal} :
    Derives (.rule .externAlias) ks ↔
      ∃ ks', ks = .externWord :: ks' ∧ Completes .aliasWord ks' := by
  rw [derives_rule_iff, Rule.production, derives_assoc, derives_assoc]
  exact derives_token_first

theorem isDeclaration_iff {t after : Text} :
    IsDeclaration t after ↔ readDeclaration? t = some (.ok after) := by
  rw [readDeclaration?_ok_iff]
  constructor
  · rintro ⟨k, behind, ks, -, hmatched, hlexes, hderives | hderives⟩
    · rcases derives_usingDirective_iff.mp hderives with ⟨ks', hks, hcompletes⟩ |
        ⟨ks', hks, hcompletes⟩
      · obtain ⟨rfl, rfl⟩ := List.cons.inj hks
        cases hlexes with
        | @more _ _ _ here rest _ _ htrivia husing _ hmore =>
            have hopens : Opens here rest .opening := .directive (after?_usingWord_iff.mp husing)
            have hstop := hopens.afterTrivium?_append []
            rw [List.append_nil] at hstop
            refine ⟨rest, .opening, t, .globalDirective (after?_globalWord_iff.mp hmatched) ?_,
              finish_of_lexes hmore hcompletes fun _ => rfl⟩
            rw [(trivia_stop_iff hstop).mp htrivia]
            exact after?_usingWord_iff.mp husing
      · obtain ⟨rfl, rfl⟩ := List.cons.inj hks
        exact ⟨behind, .opening, t, .directive (after?_usingWord_iff.mp hmatched),
          finish_of_lexes hlexes hcompletes fun _ => rfl⟩
    · obtain ⟨ks', hks, hcompletes⟩ := derives_externAlias_iff.mp hderives
      obtain ⟨rfl, rfl⟩ := List.cons.inj hks
      refine ⟨behind, .aliasWord, t, .externAlias (after?_externWord_iff.mp hmatched), ?_⟩
      exact finish_of_lexes hlexes hcompletes (by simp)
  · rintro ⟨rest, point, last, hopens, hfinish⟩
    cases hopens with
    | directive h =>
        obtain ⟨ks, hlexes, hcompletes⟩ :=
          exists_lexes .usingWord hfinish fun _ => rfl
        exact ⟨.usingWord, rest, ks, Or.inl rfl, after?_usingWord_iff.mpr h, hlexes,
          Or.inl (derives_usingDirective_iff.mpr (Or.inr ⟨ks, rfl, hcompletes⟩))⟩
    | @globalDirective behind _ h h' =>
        obtain ⟨ks, hlexes, hcompletes⟩ :=
          exists_lexes .usingWord hfinish fun _ => rfl
        have hmore : Lexes .globalWord behind (.usingWord :: ks) after :=
          .more (trivia_skipTrivia behind) (after?_usingWord_iff.mpr h') (by simp) hlexes
        exact ⟨.globalWord, behind, _, Or.inr (Or.inl rfl), after?_globalWord_iff.mpr h, hmore,
          Or.inl (derives_usingDirective_iff.mpr (Or.inl ⟨ks, rfl, hcompletes⟩))⟩
    | externAlias h =>
        obtain ⟨ks, hlexes, hcompletes⟩ :=
          exists_lexes .externWord hfinish (by simp)
        exact ⟨.externWord, rest, ks, Or.inr (Or.inr rfl), after?_externWord_iff.mpr h, hlexes,
          Or.inr (derives_externAlias_iff.mpr ⟨ks, rfl, hcompletes⟩)⟩

theorem IsDeclaration.afterTrivium? {t after : Text} (h : IsDeclaration t after) :
    afterTrivium? t = none := by
  obtain ⟨rest, point, last, hopens, -⟩ := readDeclaration?_ok_iff.mp (isDeclaration_iff.mp h)
  have hstop := hopens.afterTrivium?_append []
  rwa [List.append_nil] at hstop

theorem declarations_of_factors {t rest : Text} {ds : List Text} (h : Factors t ds rest) :
    ∃ rest', declarations t = .ok (ds, rest') := by
  induction h with
  | @body t rest htrivia hbody =>
      obtain ⟨hstop, hnone⟩ := isBody_iff.mp hbody
      rw [← (trivia_stop_iff hstop).mp htrivia] at hnone
      exact ⟨t, declarations_of_none hnone⟩
  | @declaration t d after rest ds htrivia hread _ ih =>
      obtain ⟨rest', hmore⟩ := ih
      have hskip := (trivia_stop_iff hread.afterTrivium?).mp htrivia
      refine ⟨rest', ?_⟩
      rw [declarations_of_ok (hskip ▸ isDeclaration_iff.mp hread), hskip, before_append, hmore]
      rfl

theorem exists_factors {t rest : Text} {ds : List Text} (h : declarations t = .ok (ds, rest)) :
    ∃ body, Factors t ds body := by
  induction t using declarations_induction generalizing ds with
  | step t ih =>
      cases hread : readDeclaration? (skipTrivia t) with
      | none =>
          rw [declarations_of_none hread, Except.ok.injEq, Prod.mk.injEq] at h
          obtain ⟨rfl, -⟩ := h
          exact ⟨skipTrivia t, .body (trivia_skipTrivia t)
            (isBody_iff.mpr ⟨afterTrivium?_skipTrivia t, hread⟩)⟩
      | some result =>
          cases result with
          | error fault =>
              rw [declarations_of_error hread] at h
              simp at h
          | ok after =>
              rw [declarations_of_ok hread, prepend_eq_ok_iff] at h
              obtain ⟨ds', hmore, rfl⟩ := h
              obtain ⟨body, hfactors⟩ := ih after hread hmore
              obtain ⟨front, hfront⟩ := readDeclaration?_ok hread
              have htext : skipTrivia t = before (skipTrivia t) after ++ after := by
                rw [hfront, ← List.singleton_append, ← List.append_assoc, before_append]
              refine ⟨body, .declaration ?_ ?_ hfactors⟩
              · rw [← htext]
                exact trivia_skipTrivia t
              · rw [← htext]
                exact isDeclaration_iff.mpr hread

theorem directives_iff {t : Text} {directives : List Text} :
    (∃ s, split t = .ok s ∧ s.directives = directives) ↔
      ∃ ds rest, declarations t = .ok (ds, rest) ∧ ds.map collapseBlanks = directives := by
  constructor
  · rintro ⟨s, hs, rfl⟩
    obtain ⟨ds, rest, hread⟩ := exists_declarations hs
    refine ⟨ds, rest, hread, ?_⟩
    by_cases hds : ds = []
    · subst hds
      rw [split_bare hs hread]
      rfl
    · rw [split_of_declarations hread hds, Except.ok.injEq] at hs
      rw [← hs]
  · rintro ⟨ds, rest, hread, rfl⟩
    by_cases hds : ds = []
    · subst hds
      exact ⟨⟨[], t, 0, []⟩, by rw [split, hread], rfl⟩
    · exact ⟨_, split_of_declarations hread hds, rfl⟩

/-- A text splits exactly if it factors, into the directives that its factors give, and into
nothing else; any other text has a fault. -/
theorem split_iff_factors (t : Text) :
    (∀ directives, (∃ s, split t = .ok s ∧ s.directives = directives) ↔
      ∃ ds body, Factors t ds body ∧ ds.map collapseBlanks = directives) ∧
    ((∃ fault, split t = .error fault) ↔ ¬ ∃ ds body, Factors t ds body) := by
  constructor
  · intro directives
    rw [directives_iff]
    constructor
    · rintro ⟨ds, rest, hread, hmap⟩
      obtain ⟨body, hfactors⟩ := exists_factors hread
      exact ⟨ds, body, hfactors, hmap⟩
    · rintro ⟨ds, body, hfactors, hmap⟩
      obtain ⟨rest, hread⟩ := declarations_of_factors hfactors
      exact ⟨ds, rest, hread, hmap⟩
  · simp only [split_eq_error_iff]
    constructor
    · rintro ⟨fault, hfault⟩ ⟨ds, body, hfactors⟩
      obtain ⟨rest, hread⟩ := declarations_of_factors hfactors
      rw [hread] at hfault
      simp at hfault
    · intro hnone
      cases hread : declarations t with
      | error fault => exact ⟨fault, rfl⟩
      | ok found => exact absurd ⟨found.1, exists_factors hread⟩ hnone

end ScriptWeave.Header
