import ScriptWeave.Proofs.Header.Rest

namespace ScriptWeave.Header

open Text

theorem length_lt_of_suffix_cons {rest t : Text} {c : Char} (h : rest <:+ t) :
    rest.length < (c :: t).length :=
  Nat.lt_succ_of_le h.length_le

/-! ### Trivia -/

theorem afterTrivium?_shorter {t rest : Text} (h : afterTrivium? t = some rest) :
    rest.length < t.length := by
  rw [afterTrivium?.eq_def] at h
  split at h
  · rename_i t
    rw [Option.some.injEq] at h
    exact h ▸ length_lt_of_suffix_cons ((restOfLine_suffix t).trans (List.suffix_cons '/' t))
  · rename_i t
    exact length_lt_of_suffix_cons ((afterCommentEnd?_suffix h).trans (List.suffix_cons '*' t))
  · rename_i t
    rw [Option.some.injEq] at h
    exact h ▸ length_lt_of_suffix_cons (restOfLine_suffix t)
  · rename_i c t _ _ _
    split at h
    · rw [Option.some.injEq] at h
      exact h ▸ length_lt_of_suffix_cons (List.suffix_refl t)
    · simp at h
  · simp at h

theorem skipTriviaWithin_nil (fuel : Nat) : skipTriviaWithin fuel [] = [] := by
  cases fuel <;> rfl

theorem skipTriviaWithin_eq {fuel : Nat} {t : Text} (h : t.length ≤ fuel) :
    skipTriviaWithin fuel t = skipTrivia t := by
  have hbound : ∀ n m (u : Text), u.length ≤ n → u.length ≤ m →
      skipTriviaWithin n u = skipTriviaWithin m u := by
    intro n
    induction n with
    | zero =>
        intro m u hn hm
        obtain rfl := List.length_eq_zero_iff.mp (Nat.le_zero.mp hn)
        rw [skipTriviaWithin_nil, skipTriviaWithin_nil]
    | succ n ih =>
        intro m u hn hm
        cases m with
        | zero =>
            obtain rfl := List.length_eq_zero_iff.mp (Nat.le_zero.mp hm)
            rw [skipTriviaWithin_nil, skipTriviaWithin_nil]
        | succ m =>
            rw [skipTriviaWithin, skipTriviaWithin]
            cases hu : afterTrivium? u with
            | none => rfl
            | some rest =>
                have hrest := afterTrivium?_shorter hu
                exact ih m rest (by omega) (by omega)
  exact hbound fuel t.length t h (Nat.le_refl _)

theorem skipTrivia_of_none {t : Text} (h : afterTrivium? t = none) : skipTrivia t = t := by
  rw [skipTrivia]
  cases ht : t.length with
  | zero => rfl
  | succ n => rw [skipTriviaWithin, h]

theorem skipTrivia_of_some {t rest : Text} (h : afterTrivium? t = some rest) :
    skipTrivia t = skipTrivia rest := by
  have hrest := afterTrivium?_shorter h
  rw [skipTrivia]
  cases ht : t.length with
  | zero => omega
  | succ n =>
      rw [skipTriviaWithin, h]
      exact skipTriviaWithin_eq (by omega)

theorem trivia_induction {motive : Text → Prop}
    (stop : ∀ t, afterTrivium? t = none → motive t)
    (step : ∀ t rest, afterTrivium? t = some rest → motive rest → motive t) (t : Text) :
    motive t :=
  match ht : afterTrivium? t with
  | none => stop t ht
  | some rest => step t rest ht (trivia_induction stop step rest)
termination_by t.length
decreasing_by exact afterTrivium?_shorter ht

theorem afterTrivium?_skipTrivia (t : Text) : afterTrivium? (skipTrivia t) = none := by
  induction t using trivia_induction with
  | stop t ht => rw [skipTrivia_of_none ht, ht]
  | step t rest ht ih => rw [skipTrivia_of_some ht, ih]

theorem skipTrivia_nil : skipTrivia [] = [] := rfl

theorem afterTrivium?_of_isGap {c : Char} (t : Text) (hc : isGap c = true) :
    afterTrivium? (c :: t) = some t := by
  rw [afterTrivium?, if_pos hc]
  · rintro rest rfl -
    exact absurd hc (by decide)
  · rintro rest rfl -
    exact absurd hc (by decide)
  · rintro rfl
    exact absurd hc (by decide)

theorem skipTrivia_of_gap {c : Char} (t : Text) (hc : isGap c = true) :
    skipTrivia (c :: t) = skipTrivia t :=
  skipTrivia_of_some (afterTrivium?_of_isGap t hc)

theorem skipTrivia_dropWhile {p : Char → Bool} (hp : ∀ c, p c = true → isGap c = true) (t : Text) :
    skipTrivia (t.dropWhile p) = skipTrivia t := by
  induction t with
  | nil => rfl
  | cons c t ih =>
      cases hc : p c with
      | true => rw [List.dropWhile_cons_of_pos hc, ih, skipTrivia_of_gap t (hp c hc)]
      | false => rw [List.dropWhile_cons_of_neg (by simp [hc])]

/-! ### Tokens -/

theorem readName?_shorter {t w rest : Text} (h : readName? t = some (w, rest)) :
    rest.length < t.length := by
  rw [readName?.eq_def] at h
  split at h
  · simp at h
  · rename_i c t
    split at h
    · obtain ⟨-, rfl⟩ := by simpa using h
      exact length_lt_of_suffix_cons (List.dropWhile_suffix _)
    · split at h
      · split at h
        · simp at h
        · rename_i d t
          split at h
          · obtain ⟨-, rfl⟩ := by simpa using h
            exact length_lt_of_suffix_cons
              ((List.dropWhile_suffix _).trans (List.suffix_cons d t))
          · simp at h
      · simp at h

theorem length_pos_toText (s : Symbol) : 0 < s.toText.length := by
  cases s <;> decide

theorem readToken?_shorter {t rest : Text} {token : Token}
    (h : readToken? t = some (token, rest)) : rest.length < t.length := by
  rw [readToken?] at h
  split at h
  · rename_i w rest' hname
    obtain ⟨-, rfl⟩ := by simpa using h
    exact readName?_shorter hname
  · obtain ⟨⟨s, rest'⟩, hsymbol, heq⟩ := Option.map_eq_some_iff.mp h
    obtain ⟨-, rfl⟩ := by simpa using heq
    rw [readSymbol?_eq hsymbol, List.length_append]
    exact Nat.lt_add_of_pos_left (length_pos_toText s)

theorem readToken?_skipTrivia_shorter {t rest : Text} {token : Token}
    (h : readToken? (skipTrivia t) = some (token, rest)) : rest.length < t.length :=
  Nat.lt_of_lt_of_le (readToken?_shorter h) (skipTrivia_suffix t).length_le

theorem tokens_induction {motive : Text → Prop}
    (step : ∀ t, (∀ token rest, readToken? (skipTrivia t) = some (token, rest) → motive rest) →
      motive t) (t : Text) : motive t :=
  step t fun _ rest _ => tokens_induction step rest
termination_by t.length
decreasing_by exact readToken?_skipTrivia_shorter ‹_›

theorem readWithin_eq {fuel : Nat} {t : Text} (h : t.length < fuel) :
    Tokens.readWithin fuel t = Tokens.read t := by
  have hbound : ∀ (u : Text) n m, u.length < n → u.length < m →
      Tokens.readWithin n u = Tokens.readWithin m u := by
    intro u
    induction u using tokens_induction with
    | step u ih =>
        intro n m hn hm
        obtain ⟨n, rfl⟩ := Nat.exists_eq_succ_of_ne_zero (Nat.ne_zero_of_lt hn)
        obtain ⟨m, rfl⟩ := Nat.exists_eq_succ_of_ne_zero (Nat.ne_zero_of_lt hm)
        cases hread : readToken? (skipTrivia u) with
        | none => rw [readWithin_none hread, readWithin_none hread]
        | some found =>
            obtain ⟨token, rest⟩ := found
            by_cases hsemicolon : token = .symbol .semicolon
            · subst hsemicolon
              rw [readWithin_semicolon hread, readWithin_semicolon hread]
            · have hrest := readToken?_skipTrivia_shorter hread
              rw [readWithin_more hread hsemicolon, readWithin_more hread hsemicolon,
                ih token rest hread n m (by omega) (by omega)]
  exact hbound t fuel (t.length + 1) h (Nat.lt_succ_self _)

theorem read_of_none {t : Text} (h : readToken? (skipTrivia t) = none) :
    Tokens.read t = .stuck (skipTrivia t) :=
  readWithin_none h

theorem read_of_semicolon {t after : Text}
    (h : readToken? (skipTrivia t) = some (.symbol .semicolon, after)) :
    Tokens.read t = .closed (skipTrivia t) after :=
  readWithin_semicolon h

theorem read_of_token {t after : Text} {token : Token}
    (h : readToken? (skipTrivia t) = some (token, after)) (hne : token ≠ .symbol .semicolon) :
    Tokens.read t = .more (skipTrivia t) token (Tokens.read after) := by
  rw [Tokens.read, readWithin_more h hne, readWithin_eq (readToken?_skipTrivia_shorter h)]

theorem Point.next_semicolon (p : Point) : p.next (.symbol .semicolon) = none := by
  cases p with
  | rank depth => rfl
  | headName depth | partName depth | closedList depth | suffix depth =>
      cases depth <;> rfl
  | _ => rfl

theorem finish_ok_iff {t last after : Text} {p : Point} :
    finish last p (Tokens.read t) = .ok after ↔
      ∃ token rest, readToken? (skipTrivia t) = some (token, rest) ∧
        ((token = .symbol .semicolon ∧ p.mayEnd = true ∧ rest = after) ∨
          ∃ q, p.next token = some q ∧ finish (skipTrivia t) q (Tokens.read rest) = .ok after) := by
  cases hread : readToken? (skipTrivia t) with
  | none =>
      rw [read_of_none hread]
      cases skipTrivia t <;> simp [finish]
  | some found =>
      obtain ⟨token, rest⟩ := found
      have hways : finish last p (Tokens.read t) = .ok after ↔
          (token = .symbol .semicolon ∧ p.mayEnd = true ∧ rest = after) ∨
            ∃ q, p.next token = some q ∧
              finish (skipTrivia t) q (Tokens.read rest) = .ok after := by
        by_cases hsemicolon : token = .symbol .semicolon
        · subst hsemicolon
          rw [read_of_semicolon hread, finish]
          cases hend : p.mayEnd <;> simp [Point.next_semicolon]
        · rw [read_of_token hread hsemicolon, finish.eq_def]
          dsimp only
          cases hnext : p.next token with
          | some q => simp [hsemicolon]
          | none => cases token <;> simp [hsemicolon]
      rw [hways]
      constructor
      · exact fun h => ⟨token, rest, rfl, h⟩
      · rintro ⟨_, _, ⟨⟩, h⟩
        exact h

/-! ### Declarations -/

theorem BehindSemicolon.shorter {rest t : Text} (h : BehindSemicolon rest t) :
    rest.length < t.length := by
  obtain ⟨front, rfl⟩ := h
  rw [List.length_append, List.length_cons]
  omega

theorem readDeclaration?_skipTrivia_shorter {t after : Text}
    (h : readDeclaration? (skipTrivia t) = some (.ok after)) : after.length < t.length :=
  Nat.lt_of_lt_of_le (readDeclaration?_ok h).shorter (skipTrivia_suffix t).length_le

theorem declarations_induction {motive : Text → Prop}
    (step : ∀ t, (∀ after, readDeclaration? (skipTrivia t) = some (.ok after) → motive after) →
      motive t) (t : Text) : motive t :=
  step t fun after _ => declarations_induction step after
termination_by t.length
decreasing_by exact readDeclaration?_skipTrivia_shorter ‹_›

theorem declarationsWithin_of_none {t : Text} (fuel : Nat)
    (h : readDeclaration? (skipTrivia t) = none) :
    declarationsWithin (fuel + 1) t = .ok ([], t) := by
  simp only [declarationsWithin, h]

theorem declarationsWithin_of_error {t : Text} {fault : Fault} (fuel : Nat)
    (h : readDeclaration? (skipTrivia t) = some (.error fault)) :
    declarationsWithin (fuel + 1) t = .error fault := by
  simp only [declarationsWithin, h]

def prepend (first : List Text) : Except Fault (List Text × Text) → Except Fault (List Text × Text)
  | .error fault => .error fault
  | .ok (ds, rest) => .ok (first ++ ds, rest)

@[simp] theorem prepend_nil (result : Except Fault (List Text × Text)) :
    prepend [] result = result := by
  cases result <;> rfl

@[simp] theorem prepend_prepend (first second : List Text)
    (result : Except Fault (List Text × Text)) :
    prepend first (prepend second result) = prepend (first ++ second) result := by
  cases result with
  | error fault => rfl
  | ok found => simp [prepend]

theorem prepend_eq_ok_iff {first ds : List Text} {rest : Text}
    {result : Except Fault (List Text × Text)} :
    prepend first result = .ok (ds, rest) ↔
      ∃ ds', result = .ok (ds', rest) ∧ ds = first ++ ds' := by
  cases result with
  | error fault => simp [prepend]
  | ok found =>
      obtain ⟨ds', rest'⟩ := found
      simp only [prepend, Except.ok.injEq, Prod.mk.injEq]
      constructor
      · rintro ⟨rfl, rfl⟩
        exact ⟨ds', ⟨rfl, rfl⟩, rfl⟩
      · rintro ⟨ds'', ⟨rfl, rfl⟩, rfl⟩
        exact ⟨rfl, rfl⟩

theorem prepend_eq_error_iff {first : List Text} {fault : Fault}
    {result : Except Fault (List Text × Text)} :
    prepend first result = .error fault ↔ result = .error fault := by
  cases result with
  | error fault' => rfl
  | ok found => simp [prepend]

theorem declarationsWithin_of_ok {t after : Text} (fuel : Nat)
    (h : readDeclaration? (skipTrivia t) = some (.ok after)) :
    declarationsWithin (fuel + 1) t =
      prepend [before (skipTrivia t) after] (declarationsWithin fuel after) := by
  simp only [declarationsWithin, h]
  rfl

theorem declarationsWithin_eq {fuel : Nat} {t : Text} (h : t.length < fuel) :
    declarationsWithin fuel t = declarations t := by
  have hbound : ∀ (u : Text) n m, u.length < n → u.length < m →
      declarationsWithin n u = declarationsWithin m u := by
    intro u
    induction u using declarations_induction with
    | step u ih =>
        intro n m hn hm
        obtain ⟨n, rfl⟩ := Nat.exists_eq_succ_of_ne_zero (Nat.ne_zero_of_lt hn)
        obtain ⟨m, rfl⟩ := Nat.exists_eq_succ_of_ne_zero (Nat.ne_zero_of_lt hm)
        cases hread : readDeclaration? (skipTrivia u) with
        | none => rw [declarationsWithin_of_none n hread, declarationsWithin_of_none m hread]
        | some result =>
            cases result with
            | error fault =>
                rw [declarationsWithin_of_error n hread, declarationsWithin_of_error m hread]
            | ok after =>
                have hafter := readDeclaration?_skipTrivia_shorter hread
                rw [declarationsWithin_of_ok n hread, declarationsWithin_of_ok m hread,
                  ih after hread n m (by omega) (by omega)]
  exact hbound t fuel (t.length + 1) h (Nat.lt_succ_self _)

theorem declarations_of_none {t : Text} (h : readDeclaration? (skipTrivia t) = none) :
    declarations t = .ok ([], t) :=
  declarationsWithin_of_none t.length h

theorem declarations_of_error {t : Text} {fault : Fault}
    (h : readDeclaration? (skipTrivia t) = some (.error fault)) :
    declarations t = .error fault :=
  declarationsWithin_of_error t.length h

theorem declarations_of_ok {t after : Text}
    (h : readDeclaration? (skipTrivia t) = some (.ok after)) :
    declarations t = prepend [before (skipTrivia t) after] (declarations after) := by
  rw [declarations, declarationsWithin_of_ok t.length h,
    declarationsWithin_eq (readDeclaration?_skipTrivia_shorter h)]

end ScriptWeave.Header
