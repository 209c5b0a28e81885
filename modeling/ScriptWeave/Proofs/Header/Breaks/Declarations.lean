import ScriptWeave.Proofs.Header.Breaks.Readers

/-!
The declarations of a text and of the same text with its line breaks normalised. They are the same
unless a `using` without a name stands where a declaration may begin: with a break of two characters
behind it the text is refused, and with one of a single character it is the start of the body.
-/

namespace ScriptWeave.Header

open Text

variable {t : Text} {c : Char}

/-- The text begins with `using`, behind which there is nothing but a break of two characters and a
semicolon. -/
def EmptyUsing (t : Text) : Prop := ∃ more, t = "using".toList ++ '\r' :: '\n' :: ';' :: more

theorem filter_map_congr {α : Type} {f : α → α} {p : α → Bool} {x : Option α}
    (h : ∀ a, x = some a → p (f a) = p a) : (x.map f).filter p = (x.filter p).map f := by
  cases x with
  | none => rfl
  | some a =>
      rw [Option.map_some, Option.filter_some, Option.filter_some, h a rfl]
      split <;> rfl

theorem afterUsing?_normalizeBreaks (h : ¬ EmptyUsing t) :
    afterUsing? (normalizeBreaks t) = (afterUsing? t).map normalizeBreaks := by
  rw [afterUsing?_eq, afterUsing?_eq, afterPrefix?_normalizeBreaks (inline_of_any rfl)]
  refine filter_map_congr fun rest hrest => directiveAhead_normalizeBreaks ?_
  rintro more rfl
  exact h ⟨more, afterPrefix?_eq_some_iff.mp hrest⟩

theorem afterGlobal?_normalizeBreaks (t : Text) :
    afterGlobal? (normalizeBreaks t) = (afterGlobal? t).map normalizeBreaks := by
  rw [afterGlobal?, afterGlobal?, afterPrefix?_normalizeBreaks (inline_of_any rfl)]
  exact filter_map_congr fun rest _ => wordAhead_normalizeBreaks (inline_of_any rfl) rest

theorem afterExtern?_normalizeBreaks (t : Text) :
    afterExtern? (normalizeBreaks t) = (afterExtern? t).map normalizeBreaks := by
  rw [afterExtern?, afterExtern?, afterPrefix?_normalizeBreaks (inline_of_any rfl)]
  exact filter_map_congr fun rest _ => wordAhead_normalizeBreaks (inline_of_any rfl) rest

theorem EmptyUsing.opens (h : EmptyUsing t) :
    ∃ more, afterUsing? t = some ('\r' :: '\n' :: ';' :: more) := by
  obtain ⟨more, rfl⟩ := h
  refine ⟨more, afterUsing?_eq_some_iff.mpr ⟨rfl, ['\r'], '\n' :: ';' :: more, rfl, by simp, ?_, ?_⟩⟩
  · exact List.forall_mem_singleton.mpr (by decide)
  · exact .inl ⟨['\n'], more, rfl, by simp, List.forall_mem_singleton.mpr (by decide)⟩

theorem finish_empty (last more : Text) :
    (finish last .opening (Tokens.read ('\r' :: '\n' :: ';' :: more))).toOption = none := by
  have hstop : afterTrivium? (';' :: more) = none :=
    afterTrivium?_cons_eq_none more (by decide) (by decide) (by decide)
  have hskip : skipTrivia ('\r' :: '\n' :: ';' :: more) = ';' :: more := by
    rw [skipTrivia_of_gap _ rfl, skipTrivia_of_gap _ rfl, skipTrivia_of_none hstop]
  have htoken : readToken? (skipTrivia ('\r' :: '\n' :: ';' :: more)) =
      some (.symbol .semicolon, more) := by
    rw [hskip]
    exact readToken?_symbol_iff.mpr rfl
  rw [read_of_semicolon htoken, finish]
  rfl

theorem EmptyUsing.normalized (h : EmptyUsing t) :
    ∃ more, normalizeBreaks t = "using".toList ++ '\n' :: ';' :: more ∧
      afterUsing? (normalizeBreaks t) = none := by
  obtain ⟨more, rfl⟩ := h
  have hnormal : normalizeBreaks ("using".toList ++ '\r' :: '\n' :: ';' :: more) =
      "using".toList ++ '\n' :: ';' :: normalizeBreaks more := by
    rw [normalizeBreaks_append (by simp [PartsBreak]), normalizeBreaks_crlf,
      normalizeBreaks_char more (by decide)]
    rfl
  refine ⟨normalizeBreaks more, hnormal, ?_⟩
  generalize normalizeBreaks more = more at hnormal
  rw [hnormal, Option.eq_none_iff_forall_ne_some]
  intro rest hrest
  obtain ⟨hlead, hfollows⟩ := afterUsing?_eq_some_iff.mp hrest
  rw [List.append_cancel_left_eq] at hlead
  subst hlead
  have htarget : targetAhead (';' :: more) = false := by
    rw [Bool.eq_false_iff, ne_eq, targetAhead_run_iff, List.takeWhile_cons_of_neg (by decide)]
    simp
  have halias : aliasAhead (';' :: more) = false := by
    rw [aliasAhead_of_no_mark (by simp), Bool.eq_false_iff, ne_eq, aliasAhead_run_iff,
      List.takeWhile_cons_of_neg (by decide)]
    simp
  have hgap : ('\n' :: ';' :: more).dropWhile isBlank = ';' :: more := by
    rw [List.dropWhile_cons_of_pos (by decide), List.dropWhile_cons_of_neg (by decide)]
  rw [← directiveFollows_iff, directiveAhead, hgap, halias, List.drop_one, List.tail_cons, htarget]
    at hfollows
  simp [behindStatic, afterPrefix?, aliasAhead] at hfollows

theorem readDeclaration?_normalizeBreaks (h : ¬ EmptyUsing t) :
    (readDeclaration? (normalizeBreaks t)).map Except.toOption =
      (readDeclaration? t).map fun result => result.toOption.map normalizeBreaks := by
  rw [readDeclaration?, afterUsing?_normalizeBreaks h, afterGlobal?_normalizeBreaks,
    afterExtern?_normalizeBreaks, readDeclaration?]
  cases husing : afterUsing? t with
  | some rest => exact congrArg some (finish_normalizeBreaks rest _ _ .opening)
  | none =>
      cases hglobal : afterGlobal? t with
      | some rest =>
          simp only [Option.map_none, Option.map_some, skipTrivia_normalizeBreaks]
          by_cases hempty : EmptyUsing (skipTrivia rest)
          · -- Behind `global` a declaration has to follow, so that both texts are refused.
            obtain ⟨more, hopens⟩ := hempty.opens
            obtain ⟨more', -, hnone⟩ := hempty.normalized
            rw [hopens, hnone]
            exact congrArg some (congrArg (Option.map _) (finish_empty _ more)).symm
          · rw [afterUsing?_normalizeBreaks hempty]
            cases afterUsing? (skipTrivia rest) with
            | some rest => exact congrArg some (finish_normalizeBreaks rest _ _ .opening)
            | none => rfl
      | none =>
          cases hextern : afterExtern? t with
          | some rest => exact congrArg some (finish_normalizeBreaks rest _ _ .aliasWord)
          | none => rfl

theorem before_normalizeBreaks {front rest : Text} (h : ¬ PartsBreak front rest) :
    before (normalizeBreaks (front ++ rest)) (normalizeBreaks rest) =
      normalizeBreaks (before (front ++ rest) rest) := by
  rw [normalizeBreaks_append h, before_append, before_append]

theorem before_normalizeBreaks_of_declaration {here after : Text}
    (h : readDeclaration? here = some (.ok after)) :
    before (normalizeBreaks here) (normalizeBreaks after) = normalizeBreaks (before here after) := by
  obtain ⟨front, rfl⟩ := readDeclaration?_ok h
  have hcut : ¬ PartsBreak (front ++ [';']) after := by
    rintro ⟨hlast, -⟩
    simp at hlast
  have hwhole := before_normalizeBreaks hcut
  rwa [List.append_assoc] at hwhole

theorem toOption_prepend (first : List Text) (result : Except Fault (List Text × Text)) :
    (prepend first result).toOption = result.toOption.map fun found => (first ++ found.1, found.2) := by
  cases result <;> rfl

/-- The places in the header of a text at which a declaration may begin. -/
inductive Reached : Text → Text → Prop
  | here (t : Text) : Reached t (skipTrivia t)
  | behind {t after here : Text} (hread : readDeclaration? (skipTrivia t) = some (.ok after))
      (hreached : Reached after here) : Reached t here

/-- An empty `using` stands where a declaration may begin. -/
def MeetsEmptyUsing (t : Text) : Prop := ∃ here, Reached t here ∧ EmptyUsing here

theorem declarations_normalizeBreaks_of_ok {after : Text}
    (hread : readDeclaration? (skipTrivia t) = some (.ok after)) (h : ¬ EmptyUsing (skipTrivia t)) :
    (declarations (normalizeBreaks t)).toOption =
      (declarations (normalizeBreaks after)).toOption.map fun found =>
        (normalizeBreaks (before (skipTrivia t) after) :: found.1, found.2) := by
  have hsame := readDeclaration?_normalizeBreaks h
  rw [← skipTrivia_normalizeBreaks, hread, Option.map_some] at hsame
  obtain ⟨result, hread', hresult⟩ := Option.map_eq_some_iff.mp hsame
  cases result with
  | error fault => simp [Except.toOption] at hresult
  | ok after' =>
      obtain rfl : after' = normalizeBreaks after := by simpa [Except.toOption] using hresult
      rw [declarations_of_ok hread', toOption_prepend, skipTrivia_normalizeBreaks,
        before_normalizeBreaks_of_declaration hread]
      rfl

theorem declarations_normalizeBreaks (h : ¬ MeetsEmptyUsing t) :
    (declarations (normalizeBreaks t)).toOption = (declarations t).toOption.map fun found =>
      (found.1.map normalizeBreaks, normalizeBreaks found.2) := by
  induction t using declarations_induction with
  | step t ih =>
      have hhere : ¬ EmptyUsing (skipTrivia t) := fun hempty => h ⟨_, .here t, hempty⟩
      have hsame := readDeclaration?_normalizeBreaks hhere
      rw [← skipTrivia_normalizeBreaks] at hsame
      cases hread : readDeclaration? (skipTrivia t) with
      | none =>
          rw [hread, Option.map_none, Option.map_eq_none_iff] at hsame
          rw [declarations_of_none hsame, declarations_of_none hread]
          rfl
      | some result =>
          cases result with
          | error fault =>
              rw [hread, Option.map_some] at hsame
              obtain ⟨result, hread', hresult⟩ := Option.map_eq_some_iff.mp hsame
              cases result with
              | error fault' =>
                  rw [declarations_of_error hread', declarations_of_error hread]
                  rfl
              | ok after => simp [Except.toOption] at hresult
          | ok after =>
              have hafter : ¬ MeetsEmptyUsing after := fun ⟨here, hreached, hempty⟩ =>
                h ⟨here, .behind hread hreached, hempty⟩
              rw [declarations_normalizeBreaks_of_ok hread hhere, ih after hread hafter,
                declarations_of_ok hread, toOption_prepend]
              cases declarations after <;> rfl

theorem EmptyUsing.readDeclaration? (h : EmptyUsing t) :
    (∃ fault, readDeclaration? t = some (.error fault)) ∧
      Header.readDeclaration? (normalizeBreaks t) = none := by
  constructor
  · obtain ⟨more, hopens⟩ := h.opens
    have hfinish := finish_empty t more
    rw [Header.readDeclaration?, hopens]
    cases hresult : finish t .opening (Tokens.read ('\r' :: '\n' :: ';' :: more)) with
    | error fault => exact ⟨fault, congrArg some hresult⟩
    | ok after => simp [hresult, Except.toOption] at hfinish
  · obtain ⟨more, hnormal, husing⟩ := h.normalized
    have hglobal : afterGlobal? (normalizeBreaks t) = none := by
      rw [hnormal]
      exact afterGlobal?_of_other _ (by decide)
    have hextern : afterExtern? (normalizeBreaks t) = none := by
      rw [hnormal, afterExtern?]
      rfl
    rw [Header.readDeclaration?, husing, hglobal, hextern]

theorem MeetsEmptyUsing.declarations (h : MeetsEmptyUsing t) :
    (Header.declarations t).toOption = none ∧
      (Header.declarations (normalizeBreaks t)).toOption ≠ none := by
  obtain ⟨here, hreached, hempty⟩ := h
  induction hreached with
  | here t =>
      obtain ⟨⟨fault, hfault⟩, hnone⟩ := hempty.readDeclaration?
      rw [← skipTrivia_normalizeBreaks] at hnone
      rw [declarations_of_error hfault, declarations_of_none hnone]
      exact ⟨rfl, nofun⟩
  | @behind t after here hread _ ih =>
      have hhere : ¬ EmptyUsing (skipTrivia t) := by
        intro hempty
        obtain ⟨⟨fault, hfault⟩, -⟩ := hempty.readDeclaration?
        rw [hread] at hfault
        cases hfault
      obtain ⟨hrefused, htaken⟩ := ih hempty
      rw [declarations_normalizeBreaks_of_ok hread hhere, declarations_of_ok hread,
        toOption_prepend, hrefused, Option.map_none, ne_eq, Option.map_eq_none_iff]
      exact ⟨rfl, htaken⟩

end ScriptWeave.Header
