import ScriptWeave.Proofs.Header.Locality
import ScriptWeave.Proofs.Header.Seam

/-!
A header can be put in front of a text. If it has declarations, ends its line and leaves no body,
then the text behind it is split as if it stood alone: its declarations go on the list, and what it
keeps as body is the body of the whole. In particular code behind a header has no say in it.
-/

namespace ScriptWeave.Header

open Text

/-! ### The rest of the last line -/

theorem EndsLine.of_cons {c : Char} {u : Text} (h : EndsLine (c :: u)) :
    (c = '\n' ∧ u = []) ∨ EndsLine u := by
  cases u with
  | nil => exact Or.inl ⟨by simpa [EndsLine] using h, rfl⟩
  | cons d u => exact Or.inr (h.of_suffix (List.suffix_cons c _) (by simp))

theorem EndsLine.of_sameLine {rest u : Text} (h : EndsLine u) (hline : SameLine rest u) :
    EndsLine rest := by
  obtain ⟨lead, rfl, hlead⟩ := hline
  refine h.of_suffix (List.suffix_append lead rest) ?_
  rintro rfl
  rw [List.append_nil] at h
  exact absurd (hlead '\n' (List.mem_of_getLast? h)) (by decide)

theorem EndsLine.starts {c d : Char} {u t rest : Text} (h : EndsLine u) (hc : c ≠ '\n')
    (hu : u ++ t = c :: d :: rest) : ∃ rest', u = c :: d :: rest' := by
  cases u with
  | nil => exact absurd rfl h.ne_nil
  | cons a u =>
      obtain ⟨rfl, htail⟩ := List.cons.inj hu
      rcases h.of_cons with ⟨rfl, -⟩ | hline
      · exact absurd rfl hc
      · obtain ⟨b, u, rfl⟩ := List.exists_cons_of_ne_nil hline.ne_nil
        obtain ⟨rfl, -⟩ := List.cons.inj htail
        exact ⟨u, rfl⟩

theorem afterInlineCommentEnd?_append {u : Text} (h : EndsLine u) (t : Text) :
    afterInlineCommentEnd? (u ++ t) = (afterInlineCommentEnd? u).map (· ++ t) := by
  induction u using afterInlineCommentEnd?.induct with
  | case1 u => rfl
  | case2 c u hnot hc =>
      have hnot' : ∀ rest, c = '*' → u ++ t = '/' :: rest → False := by
        rintro rest rfl -
        exact absurd hc (by decide)
      rw [List.cons_append, afterInlineCommentEnd?, afterInlineCommentEnd?, if_pos hc, if_pos hc]
      · rfl
      · exact hnot
      · exact hnot'
  | case3 c u hnot hc ih =>
      rcases h.of_cons with ⟨rfl, -⟩ | hu
      · exact absurd rfl hc
      · have hnot' : ∀ rest, c = '*' → u ++ t = '/' :: rest → False := by
          intro rest hstar hslash
          obtain ⟨d, u, rfl⟩ := List.exists_cons_of_ne_nil hu.ne_nil
          exact hnot u hstar (by rw [(List.cons.inj hslash).1])
        rw [List.cons_append, afterInlineCommentEnd?, afterInlineCommentEnd?, if_neg hc, if_neg hc,
          ih hu]
        · exact hnot
        · exact hnot'
  | case4 => exact absurd rfl h.ne_nil

theorem afterInlineComment?_append {u : Text} (h : EndsLine u) (t : Text) :
    afterInlineComment? (u ++ t) = (afterInlineComment? u).map (· ++ t) := by
  rw [afterInlineComment?.eq_def u]
  split
  · rename_i u
    exact afterInlineCommentEnd?_append
      (h.of_suffix ⟨['/', '*'], rfl⟩ (by rintro rfl; simp [EndsLine] at h)) t
  · rename_i hnot
    rw [afterInlineComment?]
    · rfl
    · intro rest hrest
      obtain ⟨rest', hu⟩ := h.starts (by decide) hrest
      exact hnot rest' hu

theorem afterInlineComment?_sameLine {u rest : Text} (h : afterInlineComment? u = some rest) :
    SameLine rest u := by
  rw [afterInlineComment?.eq_def] at h
  split at h
  · exact sameLine_cons rfl (sameLine_cons rfl (sameLine_afterInlineCommentEnd? h))
  · simp at h

theorem afterCommentEnd?_of_inline {u rest : Text} (h : afterInlineCommentEnd? u = some rest) :
    afterCommentEnd? u = some rest := by
  induction u using afterInlineCommentEnd?.induct with
  | case1 u => exact h
  | case2 c u hnot hc =>
      rw [afterInlineCommentEnd?, if_pos hc] at h
      · simp at h
      · exact hnot
  | case3 c u hnot hc ih =>
      rw [afterInlineCommentEnd?, if_neg hc] at h
      · rw [afterCommentEnd?]
        · exact ih h
        · exact hnot
      · exact hnot
  | case4 => simp [afterInlineCommentEnd?] at h

theorem afterTrivium?_of_inline {u rest : Text} (h : afterInlineComment? u = some rest) :
    afterTrivium? u = some rest := by
  rw [afterInlineComment?.eq_def] at h
  split at h
  · exact afterCommentEnd?_of_inline h
  · simp at h

theorem isGap_of_isInlineGap {c : Char} (h : isInlineGap c = true) : isGap c = true := by
  rw [isInlineGap, Bool.or_eq_true, beq_iff_eq, beq_iff_eq] at h
  rcases h with rfl | rfl <;> decide

theorem skipTrivia_skipInlineWithin (fuel : Nat) (u : Text) :
    skipTrivia (skipInlineWithin fuel u) = skipTrivia u := by
  induction fuel generalizing u with
  | zero => exact skipTrivia_dropWhile (fun _ => isGap_of_isInlineGap) u
  | succ fuel ih =>
      rw [skipInlineWithin]
      split
      · exact skipTrivia_dropWhile (fun _ => isGap_of_isInlineGap) u
      · rename_i rest hrest
        rw [ih, ← skipTrivia_of_some (afterTrivium?_of_inline hrest),
          skipTrivia_dropWhile fun _ => isGap_of_isInlineGap]

theorem skipTrivia_skipLineComment (u : Text) : skipTrivia (skipLineComment u) = skipTrivia u := by
  rw [skipLineComment.eq_def]
  split
  · exact (skipTrivia_of_some rfl).symm
  · rfl

theorem skipTrivia_skipBreak (u : Text) : skipTrivia (skipBreak u) = skipTrivia u := by
  rw [skipBreak.eq_def]
  split
  · rw [skipTrivia_of_gap _ rfl, skipTrivia_of_gap _ rfl]
  · rw [skipTrivia_of_gap _ rfl]
  · rw [skipTrivia_of_gap _ rfl]
  · rfl

theorem skipTrivia_skipTrailing (u : Text) : skipTrivia (skipTrailing u) = skipTrivia u := by
  rw [skipTrailing, skipTrivia_skipBreak, skipTrivia_skipLineComment, skipTrivia_skipInlineWithin]

theorem skipInlineWithin_append {n m : Nat} {u : Text} (h : EndsLine u) (t : Text)
    (hn : u.length ≤ n) (hm : u.length ≤ m) :
    skipInlineWithin n (u ++ t) = skipInlineWithin m u ++ t := by
  induction n generalizing u m with
  | zero => exact absurd (List.length_eq_zero_iff.mp (Nat.le_zero.mp hn)) h.ne_nil
  | succ n ih =>
      have hpos : 0 < u.length := List.length_pos_iff.mpr h.ne_nil
      obtain ⟨m, rfl⟩ := Nat.exists_eq_succ_of_ne_zero (Nat.ne_zero_of_lt (Nat.lt_of_lt_of_le hpos hm))
      have hgap : SameLine (u.dropWhile isInlineGap) u :=
        sameLine_dropWhile u fun _ => isLineEnd_of_isInlineGap
      have hends := h.of_sameLine hgap
      rw [skipInlineWithin, skipInlineWithin, dropWhile_append_of_ne_nil t hends.ne_nil,
        afterInlineComment?_append hends]
      cases hcomment : afterInlineComment? (u.dropWhile isInlineGap) with
      | none => rfl
      | some rest =>
          have hshorter := afterTrivium?_shorter (afterTrivium?_of_inline hcomment)
          have hle : (u.dropWhile isInlineGap).length ≤ u.length :=
            (List.dropWhile_suffix _).length_le
          exact ih (hends.of_sameLine (afterInlineComment?_sameLine hcomment)) (by omega) (by omega)

theorem skipLineComment_append {u : Text} (h : EndsLine u) (t : Text) :
    skipLineComment (u ++ t) = skipLineComment u ++ t := by
  rw [skipLineComment.eq_def u]
  split
  · rename_i u
    exact restOfLine_append (restOfLine_ne_nil ['/', '/'] (by decide) (Or.inr h)) t
  · rename_i hnot
    rw [skipLineComment]
    intro rest hrest
    obtain ⟨rest', hu⟩ := h.starts (by decide) hrest
    exact hnot rest' hu

theorem skipBreak_append {u : Text} (h : EndsLine u) (hrest : skipBreak u = []) (t : Text) :
    skipBreak (u ++ t) = t := by
  rw [skipBreak.eq_def] at hrest
  split at hrest
  · rw [hrest]
    rfl
  · rw [hrest] at h
    simp [EndsLine] at h
  · rw [hrest]
    rfl
  · exact absurd hrest h.ne_nil

theorem skipTrailing_append {u : Text} (h : EndsLine u) (hrest : skipTrailing u = []) (t : Text) :
    skipTrailing (u ++ t) = t := by
  have hinline := h.of_sameLine (sameLine_skipInlineWithin u.length u)
  have hcomment := hinline.of_sameLine (sameLine_skipLineComment _)
  rw [skipTrailing, skipInlineWithin_append h t
    (by rw [List.length_append]; exact Nat.le_add_right _ _) (Nat.le_refl _),
    skipLineComment_append hinline]
  exact skipBreak_append hcomment hrest t

/-! ### A header in front of a text -/

theorem EndsLine.not_partsBreak {front : Text} (h : EndsLine front) (t : Text) :
    ¬ PartsBreak front t := by
  rintro ⟨hlast, -⟩
  rw [EndsLine, hlast] at h
  exact absurd h (by decide)

/-- A header that ends its line and leaves no body, as the declarations in it see it. -/
structure Closed (front rest : Text) (s : Split) (ds : List Text) : Prop where
  read : declarations front = .ok (ds, rest)
  ne_nil : ds ≠ []
  directives_eq : s.directives = ds.map collapseBlanks
  header_eq : s.header = trimEnd front
  count_eq : s.lineCount = countLineBreaks front
  line : EndsLine front
  line_rest : EndsLine rest
  trailing : skipTrailing rest = []

theorem split_eq_error_iff {t : Text} {fault : Fault} :
    split t = .error fault ↔ declarations t = .error fault := by
  rw [split.eq_def]
  split
  · rename_i fault' hread
    rw [hread, Except.error.injEq, Except.error.injEq]
  · rename_i hread
    simp [hread]
  · rename_i hread
    simp [hread]

theorem split_of_declarations {t rest : Text} {ds : List Text} (h : declarations t = .ok (ds, rest))
    (hds : ds ≠ []) :
    split t = .ok ⟨trimEnd (before t (skipTrailing rest)), skipTrailing rest,
      countLineBreaks (before t (skipTrailing rest)), ds.map collapseBlanks⟩ := by
  obtain ⟨d, ds, rfl⟩ := List.exists_cons_of_ne_nil hds
  simp only [split, h]

theorem declarations_nil_of_split {t rest : Text} {ds : List Text} {s : Split}
    (h : split t = .ok s) (hread : declarations t = .ok (ds, rest)) (hs : s.directives = []) :
    ds = [] := by
  by_contra hds
  rw [split_of_declarations hread hds, Except.ok.injEq] at h
  rw [← h] at hs
  exact hds (List.map_eq_nil_iff.mp hs)

theorem closed_of_split {front : Text} {s : Split} (h : split front = .ok s)
    (hds : s.directives ≠ []) (hbody : s.body = []) (hline : EndsLine front) :
    ∃ rest ds, Closed front rest s ds := by
  obtain ⟨ds, rest, hread⟩ := exists_declarations h
  cases ds with
  | nil =>
      obtain rfl := split_bare h hread
      exact absurd rfl hds
  | cons d ds =>
      simp only [split, hread, Except.ok.injEq] at h
      subst h
      have htrailing : skipTrailing rest = [] := hbody
      have hbefore : before front [] = front := by simp [before]
      refine ⟨rest, d :: ds, hread, by simp, rfl, ?_, ?_, hline, ?_, htrailing⟩
      · rw [htrailing, hbefore]
      · rw [htrailing, hbefore]
      · rcases declarationsWithin_ok hread with ⟨hnil, -⟩ | ⟨-, lead, rfl⟩
        · simp at hnil
        · -- The text ends with a line feed, so the last semicolon is not its end.
          refine hline.of_suffix ((List.suffix_cons ';' rest).trans (List.suffix_append lead _)) ?_
          rintro rfl
          rw [EndsLine, List.getLast?_append_of_ne_nil _ (by simp)] at hline
          exact absurd hline (by decide)

namespace Closed

variable {front rest t : Text} {s s' : Split} {ds : List Text}

theorem declarations_append (h : Closed front rest s ds) (t : Text) :
    declarations (front ++ t) = prepend ds (declarations (rest ++ t)) :=
  Header.declarations_append h.read t

theorem skipTrivia_append (h : Closed front rest s ds) (t : Text) :
    skipTrivia (rest ++ t) = skipTrivia t := by
  have hskip : skipTrivia rest = [] := by
    rw [← skipTrivia_skipTrailing, h.trailing, skipTrivia_nil]
  rw [Header.skipTrivia_append (Or.inr h.line_rest), hskip, List.nil_append]

theorem declarations_rest_of_bare (h : Closed front rest s ds) {rest' : Text}
    (ht : declarations t = .ok ([], rest')) :
    declarations (rest ++ t) = .ok ([], rest ++ t) := by
  have hskip := h.skipTrivia_append t
  cases hread : readDeclaration? (skipTrivia t) with
  | none => exact declarations_of_none (hskip ▸ hread)
  | some result =>
      cases result with
      | error fault =>
          rw [declarations_of_error hread] at ht
          simp at ht
      | ok after =>
          rw [declarations_of_ok hread, prepend_eq_ok_iff] at ht
          simp at ht

theorem declarations_rest (h : Closed front rest s ds)
    (ht : ∀ rest', declarations t ≠ .ok ([], rest')) :
    declarations (rest ++ t) = declarations t := by
  have hskip := h.skipTrivia_append t
  cases hread : readDeclaration? (skipTrivia t) with
  | none => exact absurd (declarations_of_none hread) (ht t)
  | some result =>
      cases result with
      | error fault => rw [declarations_of_error hread, declarations_of_error (hskip ▸ hread)]
      | ok after =>
          have hread' : readDeclaration? (skipTrivia (rest ++ t)) = some (.ok after) :=
            hskip ▸ hread
          rw [declarations_of_ok hread, declarations_of_ok hread', hskip]

theorem split_error_iff (h : Closed front rest s ds) (t : Text) (fault : Fault) :
    split (front ++ t) = .error fault ↔ split t = .error fault := by
  rw [split_eq_error_iff, split_eq_error_iff, h.declarations_append, prepend_eq_error_iff]
  by_cases hbare : ∃ rest', declarations t = .ok ([], rest')
  · obtain ⟨rest', ht⟩ := hbare
    simp [h.declarations_rest_of_bare ht, ht]
  · rw [h.declarations_rest fun rest' ht => hbare ⟨rest', ht⟩]

theorem split_of_bare (h : Closed front rest s ds) (ht : split t = .ok s')
    (hbare : s'.directives = []) :
    split (front ++ t) = .ok ⟨s.header, t, s.lineCount, s.directives⟩ := by
  obtain ⟨ds', rest', hread⟩ := exists_declarations ht
  obtain rfl := declarations_nil_of_split ht hread hbare
  have hall : declarations (front ++ t) = .ok (ds, rest ++ t) := by
    rw [h.declarations_append, h.declarations_rest_of_bare hread, prepend, List.append_nil]
  rw [split_of_declarations hall h.ne_nil, skipTrailing_append h.line_rest h.trailing,
    before_append, h.header_eq, h.count_eq, h.directives_eq]

theorem split_of_directives (h : Closed front rest s ds) (ht : split t = .ok s')
    (hsome : s'.directives ≠ []) :
    split (front ++ t) = .ok ⟨front ++ s'.header, s'.body, s.lineCount + s'.lineCount,
      s.directives ++ s'.directives⟩ := by
  obtain ⟨ds', rest', hread⟩ := exists_declarations ht
  have hds' : ds' ≠ [] := by
    rintro rfl
    rw [split_bare ht hread] at hsome
    exact hsome rfl
  have hall : declarations (front ++ t) = .ok (ds ++ ds', rest') := by
    rw [h.declarations_append, h.declarations_rest fun _ hbare => hds' ?_, hread, prepend]
    rw [hread, Except.ok.injEq, Prod.mk.injEq] at hbare
    exact hbare.1
  obtain ⟨lead, tail, brk, hlead, hrest, hheader, hcount, -⟩ := split_parts ht hread hds'
  have hdirectives : s'.directives = ds'.map collapseBlanks ∧ s'.body = skipTrailing rest' := by
    rw [split_of_declarations hread hds', Except.ok.injEq] at ht
    rw [← ht]
    exact ⟨rfl, rfl⟩
  have hbefore : before (front ++ t) s'.body = front ++ (lead ++ ';' :: (tail ++ brk)) := by
    rw [hlead, hrest, ← before_append (front ++ (lead ++ ';' :: (tail ++ brk))) s'.body]
    simp only [List.append_assoc, List.cons_append]
  rw [split_of_declarations hall (by simp [h.ne_nil]), ← hdirectives.2, hbefore, List.map_append,
    ← h.directives_eq, ← hdirectives.1, countLineBreaks_append (h.line.not_partsBreak _),
    ← hcount, ← h.count_eq, hheader, ← List.append_assoc, trimEnd_append_cons _ _ (by decide),
    trimEnd_append_cons _ _ (by decide), List.append_assoc]

end Closed

/-- A header in front of a text adds its declarations and its lines to those of the text, whose
body and faults stay as they are. -/
theorem split_append {front t : Text} {s : Split} (h : split front = .ok s)
    (hds : s.directives ≠ []) (hbody : s.body = []) (hline : EndsLine front) :
    (∀ fault, split (front ++ t) = .error fault ↔ split t = .error fault) ∧
      ∀ s', split t = .ok s' → split (front ++ t) = .ok
        (if s'.directives = [] then ⟨s.header, t, s.lineCount, s.directives⟩
        else ⟨front ++ s'.header, s'.body, s.lineCount + s'.lineCount,
          s.directives ++ s'.directives⟩) := by
  obtain ⟨rest, ds, hclosed⟩ := closed_of_split h hds hbody hline
  refine ⟨hclosed.split_error_iff t, fun s' ht => ?_⟩
  split
  · rename_i hbare
    exact hclosed.split_of_bare ht hbare
  · rename_i hsome
    exact hclosed.split_of_directives ht hsome

theorem split_append_two_headers :
    split "using A; // a\n" = .ok ⟨"using A; // a", [], 1, ["using A;"]⟩ ∧
      EndsLine "using A; // a\n" ∧
      split "global using B; x" = .ok ⟨"global using B;", "x", 0, ["global using B;"]⟩ ∧
      split ("using A; // a\n".toList ++ "global using B; x".toList) =
        .ok ⟨"using A; // a\nglobal using B;", "x", 1, ["using A;", "global using B;"]⟩ := by
  have hfront : split "using A; // a\n" = .ok ⟨"using A; // a", [], 1, ["using A;"]⟩ := rfl
  have hline : EndsLine "using A; // a\n" := rfl
  have ht : split "global using B; x" = .ok ⟨"global using B;", "x", 0, ["global using B;"]⟩ := rfl
  obtain ⟨-, hall⟩ := split_append (t := "global using B; x") hfront (by simp) rfl hline
  exact ⟨hfront, hline, ht, hall _ ht⟩

end ScriptWeave.Header
