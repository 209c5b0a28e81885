import ScriptWeave.Proofs.Header.Breaks.Declarations
import ScriptWeave.Proofs.Header.Concatenation

namespace ScriptWeave.Header

open Text

variable {t : Text} {c : Char}

theorem afterInlineCommentEnd?_normalizeBreaks (t : Text) :
    afterInlineCommentEnd? (normalizeBreaks t) = (afterInlineCommentEnd? t).map normalizeBreaks := by
  induction t using breaks_induction with
  | nil => rfl
  | crlf t ih => rfl
  | carriage t ht ih => rw [normalizeBreaks_return ht]; rfl
  | char c t hc ih =>
      rw [normalizeBreaks_char t hc]
      by_cases hend : c = '*' ∧ ∃ rest, t = '/' :: rest
      · obtain ⟨rfl, rest, rfl⟩ := hend
        rw [normalizeBreaks_char rest (by decide)]
        rfl
      · rw [afterInlineCommentEnd?, afterInlineCommentEnd?]
        · split
          · rfl
          · exact ih
        · rintro rest rfl rfl
          exact hend ⟨rfl, rest, rfl⟩
        · rintro rest rfl hrest
          obtain ⟨more, rfl, -⟩ := exists_of_normalizeBreaks_cons (by decide) hrest
          exact hend ⟨rfl, more, rfl⟩

theorem afterInlineComment?_eq (t : Text) :
    afterInlineComment? t = (afterPrefix? "/*" t).bind afterInlineCommentEnd? := by
  rw [afterInlineComment?.eq_def]
  split
  · rfl
  · rename_i hnot
    cases hlead : afterPrefix? "/*" t with
    | none => rfl
    | some rest => exact absurd (afterPrefix?_eq_some_iff.mp hlead) (hnot rest)

theorem afterInlineComment?_normalizeBreaks (t : Text) :
    afterInlineComment? (normalizeBreaks t) = (afterInlineComment? t).map normalizeBreaks := by
  rw [afterInlineComment?_eq, afterInlineComment?_eq, afterPrefix?_normalizeBreaks (inline_of_any rfl)]
  cases afterPrefix? "/*" t with
  | none => rfl
  | some rest => exact afterInlineCommentEnd?_normalizeBreaks rest

theorem skipInlineWithin_normalizeBreaks {n m : Nat} {t : Text} (hn : (normalizeBreaks t).length ≤ n)
    (hm : t.length ≤ m) :
    skipInlineWithin n (normalizeBreaks t) = normalizeBreaks (skipInlineWithin m t) := by
  have hgap : ∀ t, (normalizeBreaks t).dropWhile isInlineGap =
      normalizeBreaks (t.dropWhile isInlineGap) := dropWhile_normalizeBreaks rfl
  induction m generalizing n t with
  | zero =>
      obtain rfl := List.length_eq_zero_iff.mp (Nat.le_zero.mp hm)
      cases n <;> rfl
  | succ m ih =>
      cases n with
      | zero =>
          rw [Nat.le_zero, List.length_eq_zero_iff, normalizeBreaks_eq_nil_iff] at hn
          subst hn
          rfl
      | succ n =>
          have hcomment := afterInlineComment?_normalizeBreaks (t.dropWhile isInlineGap)
          rw [skipInlineWithin, skipInlineWithin, hgap]
          cases hfound : afterInlineComment? (t.dropWhile isInlineGap) with
          | none =>
              rw [hfound, Option.map_none] at hcomment
              rw [hcomment]
          | some rest =>
              rw [hfound, Option.map_some] at hcomment
              rw [hcomment]
              have hrest := afterTrivium?_shorter (afterTrivium?_of_inline hfound)
              have hrest' := afterTrivium?_shorter (afterTrivium?_of_inline hcomment)
              have hle : (t.dropWhile isInlineGap).length ≤ t.length :=
                (List.dropWhile_suffix _).length_le
              have hle' : (normalizeBreaks (t.dropWhile isInlineGap)).length ≤
                  (normalizeBreaks t).length := by
                rw [← hgap]
                exact (List.dropWhile_suffix _).length_le
              exact ih (by omega) (by omega)

theorem skipLineComment_normalizeBreaks (t : Text) :
    skipLineComment (normalizeBreaks t) = normalizeBreaks (skipLineComment t) := by
  have heq : ∀ t, skipLineComment t = ((afterPrefix? "//" t).map restOfLine).getD t := by
    intro t
    rw [skipLineComment.eq_def]
    split
    · rfl
    · rename_i hnot
      cases hlead : afterPrefix? "//" t with
      | none => rfl
      | some rest => exact absurd (afterPrefix?_eq_some_iff.mp hlead) (hnot rest)
  rw [heq, heq, afterPrefix?_normalizeBreaks (inline_of_any rfl)]
  cases afterPrefix? "//" t with
  | none => rfl
  | some rest => exact restOfLine_normalizeBreaks rest

theorem skipBreak_return (ht : ∀ rest, t ≠ '\n' :: rest) : skipBreak ('\r' :: t) = t := by
  rw [skipBreak]
  exact ht

theorem skipBreak_char (hr : c ≠ '\r') (hn : c ≠ '\n') : skipBreak (c :: t) = c :: t := by
  rw [skipBreak]
  · exact fun _ h => hr (List.cons.inj h).1
  · exact fun _ h => hr (List.cons.inj h).1
  · exact fun _ h => hn (List.cons.inj h).1

theorem skipBreak_normalizeBreaks (t : Text) :
    skipBreak (normalizeBreaks t) = normalizeBreaks (skipBreak t) := by
  cases t using breaks_induction with
  | nil => rfl
  | crlf t => rfl
  | carriage t ht => rw [normalizeBreaks_return ht, skipBreak_return ht]; rfl
  | char c t hc =>
      rw [normalizeBreaks_char t hc]
      by_cases hn : c = '\n'
      · subst hn
        rfl
      · rw [skipBreak_char hc hn, skipBreak_char hc hn, normalizeBreaks_char t hc]

theorem skipTrailing_normalizeBreaks (t : Text) :
    skipTrailing (normalizeBreaks t) = normalizeBreaks (skipTrailing t) := by
  rw [skipTrailing, skipInlineWithin_normalizeBreaks (Nat.le_refl _) (Nat.le_refl _),
    skipLineComment_normalizeBreaks, skipBreak_normalizeBreaks, skipTrailing]

/-- The two splits differ at most in how their line breaks are written. -/
structure Split.Alike (s s' : Split) : Prop where
  headerLines : s.headerLines = s'.headerLines
  bodyLines : s.bodyLines = s'.bodyLines
  lineCount : s.lineCount = s'.lineCount
  directives : s.directives = s'.directives

/-- Both texts are refused, or they split alike. -/
def SplitAlike (t t' : Text) : Prop :=
  match split t, split t' with
  | .error _, .error _ => True
  | .ok s, .ok s' => s.Alike s'
  | _, _ => False

theorem before_normalizeBreaks_of_split {s : Split} {ds : List Text} {rest : Text}
    (h : split t = .ok s) (hread : declarations t = .ok (ds, rest)) (hds : ds ≠ []) :
    before (normalizeBreaks t) (normalizeBreaks s.body) = normalizeBreaks (before t s.body) := by
  obtain ⟨front, lead, brk, rfl, rfl, -, -, hlead, -, hintact⟩ := split_parts h hread hds
  have hlast : ∀ c, (front ++ ';' :: lead).getLast? = some c → isLineEnd c = false := by
    intro c hc
    rw [List.getLast?_append_of_ne_nil _ (by simp)] at hc
    rcases List.mem_cons.mp (List.mem_of_getLast? hc) with rfl | hmem
    · rfl
    · exact hlead c hmem
  have hwhole := before_normalizeBreaks (not_partsBreak_append hlast hintact)
  simpa using hwhole

theorem splitAlike_normalizeBreaks (h : ¬ MeetsEmptyUsing t) : SplitAlike t (normalizeBreaks t) := by
  have hread := declarations_normalizeBreaks h
  rw [SplitAlike]
  cases hfound : declarations t with
  | error fault =>
      cases hfound' : declarations (normalizeBreaks t) with
      | error fault' => simp [split, hfound, hfound']
      | ok found => simp [hfound, hfound', Except.toOption] at hread
  | ok found =>
      obtain ⟨ds, rest⟩ := found
      have hfound' : declarations (normalizeBreaks t) =
          .ok (ds.map normalizeBreaks, normalizeBreaks rest) := by
        cases hnormal : declarations (normalizeBreaks t) with
        | error fault => simp [hfound, hnormal, Except.toOption] at hread
        | ok found' =>
            rw [hfound, hnormal] at hread
            exact congrArg Except.ok (Option.some.inj hread)
      cases ds with
      | nil =>
          simp only [split, hfound, hfound', List.map_nil]
          exact ⟨rfl, (splitLines_normalizeBreaks t).symm, rfl, rfl⟩
      | cons d ds =>
          have hs : split t = .ok ⟨trimEnd (before t (skipTrailing rest)), skipTrailing rest,
              countLineBreaks (before t (skipTrailing rest)), (d :: ds).map collapseBlanks⟩ := by
            simp only [split, hfound]
          have hbefore := before_normalizeBreaks_of_split hs hfound (by simp)
          simp only [split, hfound, hfound', List.map_cons, skipTrailing_normalizeBreaks, hbefore,
            trimEnd_normalizeBreaks, countLineBreaks_normalizeBreaks, collapseBlanks_normalizeBreaks,
            List.map_map]
          refine ⟨(splitLines_normalizeBreaks _).symm, (splitLines_normalizeBreaks _).symm, rfl, ?_⟩
          simp [collapseBlanks_normalizeBreaks]

theorem splitAlike_normalizeBreaks_iff : SplitAlike t (normalizeBreaks t) ↔ ¬ MeetsEmptyUsing t := by
  refine ⟨fun halike hmeets => ?_, splitAlike_normalizeBreaks⟩
  obtain ⟨hrefused, htaken⟩ := hmeets.declarations
  rw [SplitAlike] at halike
  cases hread : declarations t with
  | ok found => simp [hread, Except.toOption] at hrefused
  | error fault =>
      cases hread' : declarations (normalizeBreaks t) with
      | error fault' => simp [hread', Except.toOption] at htaken
      | ok found =>
          obtain ⟨ds, rest⟩ := found
          cases ds <;> simp [split, hread, hread'] at halike

example : ¬ SplitAlike "using\r\n;" "using\n;" := fun h =>
  (splitAlike_normalizeBreaks_iff (t := "using\r\n;")).mp h ⟨_, .here _, [], rfl⟩

end ScriptWeave.Header
