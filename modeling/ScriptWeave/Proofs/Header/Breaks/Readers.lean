import ScriptWeave.Proofs.Breaks
import ScriptWeave.Proofs.Header.Locality
import ScriptWeave.Proofs.Header.Seam

/-!
The readers of a header on a text and on the same text with its line breaks normalised. Each of them
stops at the same place in both. The only exception is the look-ahead behind `using`, which takes one
blank of its own: a break of two characters leaves it another one, and one of a single character
nothing.
-/

namespace ScriptWeave.Header

open Text

variable {t : Text} {c : Char}

/-! ### Prefixes -/

theorem normalizeBreaks_ne_cons (hc : c ≠ '\n') (h : ∀ rest, t ≠ c :: rest) (rest : Text) :
    normalizeBreaks t ≠ c :: rest := by
  intro hcons
  obtain ⟨more, ht, -⟩ := exists_of_normalizeBreaks_cons hc hcons
  exact h more ht

theorem inline_of_any {lead : Text} (h : lead.any isLineEnd = false) :
    ∀ c ∈ lead, isLineEnd c = false := by
  simpa using h

theorem afterPrefix?_normalizeBreaks {lead : Text} (hlead : ∀ c ∈ lead, isLineEnd c = false)
    (t : Text) : afterPrefix? lead (normalizeBreaks t) = (afterPrefix? lead t).map normalizeBreaks := by
  induction lead generalizing t with
  | nil => rfl
  | cons p lead ih =>
      have hp : p ≠ '\r' ∧ p ≠ '\n' := by simpa [isLineEnd] using hlead p List.mem_cons_self
      cases t using breaks_induction with
      | nil => rfl
      | crlf t => simp [normalizeBreaks_crlf, afterPrefix?, hp.1, hp.2]
      | carriage t ht => simp [normalizeBreaks_return ht, afterPrefix?, hp.1, hp.2]
      | char c t hc =>
          rw [normalizeBreaks_char t hc, afterPrefix?, afterPrefix?]
          split
          · exact ih (fun d hd => hlead d (List.mem_cons_of_mem _ hd)) t
          · rfl

theorem normalizeBreaks_eq_append_iff {lead rest : Text} (hlead : ∀ c ∈ lead, isLineEnd c = false) :
    normalizeBreaks t = lead ++ rest ↔ ∃ more, t = lead ++ more ∧ rest = normalizeBreaks more := by
  rw [← afterPrefix?_eq_some_iff, afterPrefix?_normalizeBreaks hlead, Option.map_eq_some_iff]
  simp only [afterPrefix?_eq_some_iff, eq_comm (a := rest)]

/-! ### Trivia -/

theorem restOfLine_normalizeBreaks (t : Text) :
    restOfLine (normalizeBreaks t) = normalizeBreaks (restOfLine t) :=
  dropWhile_normalizeBreaks rfl t

theorem afterCommentEnd?_normalizeBreaks (t : Text) :
    afterCommentEnd? (normalizeBreaks t) = (afterCommentEnd? t).map normalizeBreaks := by
  induction t using breaks_induction with
  | nil => rfl
  | crlf t ih =>
      rw [normalizeBreaks_crlf]
      simpa [afterCommentEnd?] using ih
  | carriage t ht ih =>
      rw [normalizeBreaks_return ht]
      simpa [afterCommentEnd?] using ih
  | char c t hc ih =>
      rw [normalizeBreaks_char t hc]
      by_cases hend : c = '*' ∧ ∃ rest, t = '/' :: rest
      · obtain ⟨rfl, rest, rfl⟩ := hend
        rw [normalizeBreaks_char rest (by decide)]
        rfl
      · rw [afterCommentEnd?, afterCommentEnd?]
        · exact ih
        · rintro rest rfl rfl
          exact hend ⟨rfl, rest, rfl⟩
        · rintro rest rfl hrest
          obtain ⟨more, rfl, -⟩ := exists_of_normalizeBreaks_cons (by decide) hrest
          exact hend ⟨rfl, more, rfl⟩

theorem afterTrivium?_of_slash (hline : ∀ rest, t ≠ '/' :: rest) (hblock : ∀ rest, t ≠ '*' :: rest) :
    afterTrivium? ('/' :: t) = none := by
  rw [afterTrivium?]
  · rfl
  · exact fun rest _ => hline rest
  · exact fun rest _ => hblock rest
  · simp

theorem afterTrivium?_normalizeBreaks (h : ∀ rest, t ≠ '\r' :: '\n' :: rest) :
    afterTrivium? (normalizeBreaks t) = (afterTrivium? t).map normalizeBreaks := by
  cases t using breaks_induction with
  | nil => rfl
  | crlf t => exact absurd rfl (h t)
  | carriage t ht =>
      rw [normalizeBreaks_return ht, afterTrivium?_of_isGap _ rfl, afterTrivium?_of_isGap _ rfl,
        Option.map_some]
  | char c t hc =>
      rw [normalizeBreaks_char t hc]
      by_cases hgap : isGap c = true
      · rw [afterTrivium?_of_isGap _ hgap, afterTrivium?_of_isGap _ hgap, Option.map_some]
      by_cases hsharp : c = '#'
      · subst hsharp
        rw [afterTrivium?, afterTrivium?, restOfLine_normalizeBreaks, Option.map_some]
      by_cases hslash : c = '/'
      · subst hslash
        by_cases hline : ∃ rest, t = '/' :: rest
        · obtain ⟨rest, rfl⟩ := hline
          rw [normalizeBreaks_char rest (by decide), afterTrivium?, afterTrivium?,
            restOfLine_normalizeBreaks, Option.map_some]
        by_cases hblock : ∃ rest, t = '*' :: rest
        · obtain ⟨rest, rfl⟩ := hblock
          rw [normalizeBreaks_char rest (by decide), afterTrivium?, afterTrivium?,
            afterCommentEnd?_normalizeBreaks]
        rw [not_exists] at hline hblock
        rw [afterTrivium?_of_slash hline hblock, Option.map_none]
        exact afterTrivium?_of_slash (normalizeBreaks_ne_cons (by decide) hline)
          (normalizeBreaks_ne_cons (by decide) hblock)
      · have hnone := fun t => afterTrivium?_cons_eq_none t (Bool.eq_false_iff.mpr hgap) hslash hsharp
        rw [hnone, hnone, Option.map_none]

theorem skipTrivia_normalizeBreaks (t : Text) :
    skipTrivia (normalizeBreaks t) = normalizeBreaks (skipTrivia t) := by
  induction t using trivia_induction with
  | stop t ht =>
      have hbreak : ∀ rest, t ≠ '\r' :: '\n' :: rest := by
        rintro rest rfl
        simp [afterTrivium?_of_isGap (c := '\r') _ rfl] at ht
      have hnone := afterTrivium?_normalizeBreaks hbreak
      rw [ht, Option.map_none] at hnone
      rw [skipTrivia_of_none hnone, skipTrivia_of_none ht]
  | step t rest ht ih =>
      rw [skipTrivia_of_some ht, ← ih]
      by_cases hbreak : ∃ more, t = '\r' :: '\n' :: more
      · -- The carriage return is a trivium of its own, and the line feed is still to come.
        obtain ⟨more, rfl⟩ := hbreak
        rw [afterTrivium?_of_isGap _ rfl, Option.some.injEq] at ht
        rw [← ht, normalizeBreaks_crlf, normalizeBreaks_char more (by decide)]
      · rw [not_exists] at hbreak
        have hsome := afterTrivium?_normalizeBreaks hbreak
        rw [ht, Option.map_some] at hsome
        rw [skipTrivia_of_some hsome]

/-! ### Tokens -/

theorem parts_normalizeBreaks_iff {p : Char → Bool} (hp : p '\r' = p '\n') :
    Parts p (normalizeBreaks t) ↔ Parts p t := by
  cases t using breaks_induction with
  | nil => rfl
  | crlf t => simp [normalizeBreaks_crlf, Parts, hp]
  | carriage t ht => simp [normalizeBreaks_return ht, Parts, hp]
  | char c t hc => simp [normalizeBreaks_char t hc, Parts]

theorem isLineEnd_of_isWordChar (hc : isWordChar c = true) : isLineEnd c = false :=
  isLineEnd_of_not_isBlank (not_isBlank_of_isWordChar hc)

theorem IsName.inline {w : Text} (hw : IsName w) : ∀ c ∈ w, isLineEnd c = false := by
  obtain ⟨mark, d, body, rfl, hmark, hd, hbody⟩ := hw
  intro c hc
  rcases List.mem_append.mp hc with hc | hc
  · rcases hmark with rfl | rfl
    · exact absurd hc List.not_mem_nil
    · exact List.mem_singleton.mp hc ▸ rfl
  · rcases List.mem_cons.mp hc with rfl | hc
    · exact isLineEnd_of_isWordChar (isWordChar_of_isNameStart hd)
    · exact isLineEnd_of_isWordChar (hbody c hc)

theorem Symbol.inline (s : Symbol) : ∀ c ∈ s.toText, isLineEnd c = false := by
  apply inline_of_any
  cases s <;> rfl

theorem readToken?_normalizeBreaks (t : Text) :
    readToken? (normalizeBreaks t) =
      (readToken? t).map fun found => (found.1, normalizeBreaks found.2) := by
  have hword : isWordChar '\r' = isWordChar '\n' := by decide
  refine Option.ext fun found => ?_
  obtain ⟨token, rest'⟩ := found
  simp only [Option.map_eq_some_iff, Prod.exists, Prod.mk.injEq]
  cases token with
  | symbol s =>
      rw [readToken?_symbol_iff, normalizeBreaks_eq_append_iff s.inline]
      constructor
      · rintro ⟨more, ht, rfl⟩
        exact ⟨_, more, readToken?_symbol_iff.mpr ht, rfl, rfl⟩
      · rintro ⟨_, more, hread, rfl, rfl⟩
        exact ⟨more, readToken?_symbol_iff.mp hread, rfl⟩
  | word w =>
      rw [readToken?_word_iff, readName?_eq_some_iff]
      constructor
      · rintro ⟨ht, hw, hparts⟩
        obtain ⟨more, rfl, rfl⟩ := (normalizeBreaks_eq_append_iff hw.inline).mp ht
        rw [parts_normalizeBreaks_iff hword] at hparts
        exact ⟨_, more, readToken?_word_iff.mpr (readName?_eq_some_iff.mpr ⟨rfl, hw, hparts⟩), rfl, rfl⟩
      · rintro ⟨_, more, hread, rfl, rfl⟩
        obtain ⟨rfl, hw, hparts⟩ := readName?_eq_some_iff.mp (readToken?_word_iff.mp hread)
        exact ⟨(normalizeBreaks_eq_append_iff hw.inline).mpr ⟨more, rfl, rfl⟩, hw,
          (parts_normalizeBreaks_iff hword).mpr hparts⟩

theorem finish_normalizeBreaks (t last last' : Text) (point : Point) :
    (finish last' point (Tokens.read (normalizeBreaks t))).toOption =
      (finish last point (Tokens.read t)).toOption.map normalizeBreaks := by
  induction t using tokens_induction generalizing last last' point with
  | step t ih =>
      have hread := readToken?_normalizeBreaks (skipTrivia t)
      rw [← skipTrivia_normalizeBreaks] at hread
      cases hfound : readToken? (skipTrivia t) with
      | none =>
          have hstuck : ∀ last here, (finish last point (.stuck here)).toOption = none := by
            intro last here
            cases here <;> rfl
          rw [hfound, Option.map_none] at hread
          rw [read_of_none hread, read_of_none hfound, hstuck, hstuck, Option.map_none]
      | some found =>
          obtain ⟨token, rest⟩ := found
          rw [hfound, Option.map_some] at hread
          by_cases hsemicolon : token = .symbol .semicolon
          · subst hsemicolon
            rw [read_of_semicolon hread, read_of_semicolon hfound, finish, finish]
            cases point.mayEnd <;> rfl
          · rw [read_of_token hread hsemicolon, read_of_token hfound hsemicolon, finish.eq_def,
              finish.eq_def last]
            cases hnext : point.next token with
            | some point' =>
                simp only [hnext]
                exact ih token rest hfound _ _ point'
            | none => cases token <;> simp only [hnext] <;> rfl

/-! ### Looking ahead -/

theorem startsBlank_normalizeBreaks (t : Text) : startsBlank (normalizeBreaks t) = startsBlank t := by
  cases t using breaks_induction with
  | nil => rfl
  | crlf t => rfl
  | carriage t ht => rw [normalizeBreaks_return ht]; rfl
  | char c t hc => rw [normalizeBreaks_char t hc]; rfl

theorem normalizeBreaks_eq_cons_iff {rest : Text} (hc : isLineEnd c = false) :
    normalizeBreaks t = c :: rest ↔ ∃ more, t = c :: more ∧ rest = normalizeBreaks more := by
  show normalizeBreaks t = [c] ++ rest ↔ _
  exact normalizeBreaks_eq_append_iff (List.forall_mem_singleton.mpr hc)

theorem targetAhead_run_iff :
    targetAhead t = true ↔
      t.takeWhile isTargetChar ≠ [] ∧ ∃ rest, t.dropWhile isTargetChar = ';' :: rest := by
  rw [targetAhead]
  split
  · rename_i htarget hrest
    simp [htarget, hrest]
  · rename_i hnot
    simp only [Bool.false_eq_true, ne_eq, false_iff, not_and, not_exists]
    intro hne rest hrest
    obtain ⟨c, target, htarget⟩ := List.exists_cons_of_ne_nil hne
    exact hnot c target rest htarget hrest

theorem targetAhead_normalizeBreaks (t : Text) :
    targetAhead (normalizeBreaks t) = targetAhead t := by
  have hp : isTargetChar '\r' = isTargetChar '\n' := by decide
  rw [Bool.eq_iff_iff, targetAhead_run_iff, targetAhead_run_iff, takeWhile_normalizeBreaks hp,
    dropWhile_normalizeBreaks hp, ne_eq, normalizeBreaks_eq_nil_iff]
  refine and_congr_right fun _ => ?_
  constructor
  · rintro ⟨rest, hrest⟩
    obtain ⟨more, hmore, -⟩ := (normalizeBreaks_eq_cons_iff rfl).mp hrest
    exact ⟨more, hmore⟩
  · rintro ⟨rest, hrest⟩
    exact ⟨_, (normalizeBreaks_eq_cons_iff rfl).mpr ⟨rest, hrest, rfl⟩⟩

theorem aliasAhead_run_iff :
    aliasAhead ('@' :: t) = true ↔ t.takeWhile isWordChar ≠ [] ∧
      ∃ rest, (t.dropWhile isWordChar).dropWhile isBlank = '=' :: rest ∧ targetAhead rest = true := by
  rw [aliasAhead]
  split
  · rename_i hname hrest
    simp [hname, hrest]
  · rename_i hnot
    simp only [Bool.false_eq_true, ne_eq, false_iff, not_and, not_exists]
    intro hne rest hrest
    obtain ⟨c, name, hname⟩ := List.exists_cons_of_ne_nil hne
    exact absurd hrest (hnot c name rest hname)

theorem aliasAhead_normalizeBreaks (t : Text) : aliasAhead (normalizeBreaks t) = aliasAhead t := by
  have hmarked : ∀ t, aliasAhead ('@' :: normalizeBreaks t) = aliasAhead ('@' :: t) := by
    intro t
    have hword : isWordChar '\r' = isWordChar '\n' := by decide
    have hblank : isBlank '\r' = isBlank '\n' := by decide
    rw [Bool.eq_iff_iff, aliasAhead_run_iff, aliasAhead_run_iff, takeWhile_normalizeBreaks hword,
      dropWhile_normalizeBreaks hword, dropWhile_normalizeBreaks hblank, ne_eq,
      normalizeBreaks_eq_nil_iff]
    refine and_congr_right fun _ => ?_
    constructor
    · rintro ⟨rest, hrest, htarget⟩
      obtain ⟨more, hmore, rfl⟩ := (normalizeBreaks_eq_cons_iff rfl).mp hrest
      exact ⟨more, hmore, targetAhead_normalizeBreaks more ▸ htarget⟩
    · rintro ⟨rest, hrest, htarget⟩
      refine ⟨_, (normalizeBreaks_eq_cons_iff rfl).mpr ⟨rest, hrest, rfl⟩, ?_⟩
      rwa [targetAhead_normalizeBreaks]
  by_cases hmark : ∃ more, t = '@' :: more
  · obtain ⟨more, rfl⟩ := hmark
    rw [normalizeBreaks_char more (by decide), hmarked]
  · rw [not_exists] at hmark
    rw [aliasAhead_of_no_mark hmark, ← hmarked]
    exact aliasAhead_of_no_mark (normalizeBreaks_ne_cons (by decide) hmark)

theorem behindStatic_normalizeBreaks (t : Text) :
    behindStatic (normalizeBreaks t) = normalizeBreaks (behindStatic t) := by
  have hblank : isBlank '\r' = isBlank '\n' := by decide
  rw [behindStatic, afterPrefix?_normalizeBreaks (inline_of_any rfl), behindStatic]
  cases afterPrefix? "static" t with
  | none => rfl
  | some rest =>
      simp only [Option.map_some, startsBlank_normalizeBreaks, dropWhile_normalizeBreaks hblank]
      split <;> rfl

theorem targetAhead_drop_normalizeBreaks (h : ∀ rest, t ≠ '\r' :: '\n' :: ';' :: rest) :
    targetAhead ((normalizeBreaks t).drop 1) = targetAhead (t.drop 1) := by
  cases t using breaks_induction with
  | nil => rfl
  | crlf t =>
      rw [normalizeBreaks_crlf, List.drop_one, List.drop_one, List.tail_cons, List.tail_cons,
        targetAhead_normalizeBreaks, Bool.eq_iff_iff, targetAhead_run_iff, targetAhead_run_iff,
        List.takeWhile_cons_of_pos (by decide), List.dropWhile_cons_of_pos (by decide)]
      refine and_congr_left ?_
      rintro ⟨rest, hrest⟩
      simp only [ne_eq, reduceCtorEq, not_false_eq_true, iff_true]
      intro hnil
      have ht := List.takeWhile_append_dropWhile (p := isTargetChar) (l := t)
      rw [hnil, hrest] at ht
      exact h rest (by rw [← ht]; rfl)
  | carriage t ht => rw [normalizeBreaks_return ht]; exact targetAhead_normalizeBreaks t
  | char c t hc => rw [normalizeBreaks_char t hc]; exact targetAhead_normalizeBreaks t

theorem directiveAhead_normalizeBreaks (h : ∀ rest, t ≠ '\r' :: '\n' :: ';' :: rest) :
    directiveAhead (normalizeBreaks t) = directiveAhead t := by
  have hblank : isBlank '\r' = isBlank '\n' := by decide
  rw [directiveAhead, startsBlank_normalizeBreaks, targetAhead_drop_normalizeBreaks h,
    dropWhile_normalizeBreaks hblank, aliasAhead_normalizeBreaks, behindStatic_normalizeBreaks,
    aliasAhead_normalizeBreaks, directiveAhead]

theorem wordAhead_normalizeBreaks {word : Text} (hword : ∀ c ∈ word, isLineEnd c = false)
    (t : Text) : wordAhead word (normalizeBreaks t) = wordAhead word t := by
  have hblank : isBlank '\r' = isBlank '\n' := by decide
  rw [wordAhead, startsBlank_normalizeBreaks, dropWhile_normalizeBreaks hblank,
    afterPrefix?_normalizeBreaks hword, wordAhead]
  cases afterPrefix? word (t.dropWhile isBlank) with
  | none => rfl
  | some rest =>
      cases rest using breaks_induction with
      | nil => rfl
      | crlf t => rfl
      | carriage t ht => rw [Option.map_some, normalizeBreaks_return ht]; rfl
      | char c t hc => rw [Option.map_some, normalizeBreaks_char t hc]

end ScriptWeave.Header
