import ScriptWeave.Proofs.Blanks
import ScriptWeave.Proofs.Header.Rest
import ScriptWeave.Proofs.Lines

/-!
The seam between header and body. Only white space is lost there: blanks of the last line of the
header and at most one line break behind them. Both halves keep their place among the lines of the
source, and a line lies in both of them only if the body starts on the line on which the last
declaration ends.
-/

namespace ScriptWeave.Header

open Text

def SameLine (rest t : Text) : Prop :=
  ∃ lead, t = lead ++ rest ∧ ∀ c ∈ lead, isLineEnd c = false

theorem SameLine.refl (t : Text) : SameLine t t := ⟨[], rfl, by simp⟩

theorem SameLine.trans {a b c : Text} (hab : SameLine a b) (hbc : SameLine b c) : SameLine a c := by
  obtain ⟨lead, rfl, hlead⟩ := hab
  obtain ⟨lead', rfl, hlead'⟩ := hbc
  refine ⟨lead' ++ lead, by rw [List.append_assoc], fun d hd => ?_⟩
  rcases List.mem_append.mp hd with hd | hd
  · exact hlead' d hd
  · exact hlead d hd

theorem sameLine_dropWhile {p : Char → Bool} (t : Text)
    (h : ∀ c, p c = true → isLineEnd c = false) :
    SameLine (t.dropWhile p) t :=
  ⟨t.takeWhile p, List.takeWhile_append_dropWhile.symm,
    fun c hc => h c (List.mem_takeWhile_imp hc)⟩

theorem isLineEnd_of_isInlineGap {c : Char} (h : isInlineGap c = true) : isLineEnd c = false := by
  rw [isInlineGap, Bool.or_eq_true, beq_iff_eq, beq_iff_eq] at h
  rcases h with rfl | rfl <;> rfl

theorem sameLine_restOfLine (t : Text) : SameLine (restOfLine t) t :=
  sameLine_dropWhile t fun _ hc => by simpa using hc

theorem sameLine_cons {c : Char} {rest t : Text} (hc : isLineEnd c = false)
    (h : SameLine rest t) : SameLine rest (c :: t) := by
  obtain ⟨lead, rfl, hlead⟩ := h
  exact ⟨c :: lead, rfl, List.forall_mem_cons.mpr ⟨hc, hlead⟩⟩

theorem sameLine_afterInlineCommentEnd? {t rest : Text}
    (h : afterInlineCommentEnd? t = some rest) : SameLine rest t := by
  induction t using afterInlineCommentEnd?.induct with
  | case1 t =>
      rw [afterInlineCommentEnd?, Option.some.injEq] at h
      subst h
      exact sameLine_cons rfl (sameLine_cons rfl (.refl _))
  | case2 c t hnot hc =>
      rw [afterInlineCommentEnd?, if_pos hc] at h
      · simp at h
      · exact hnot
  | case3 c t hnot hc ih =>
      rw [afterInlineCommentEnd?, if_neg hc] at h
      · exact sameLine_cons (by simpa using hc) (ih h)
      · exact hnot
  | case4 => simp [afterInlineCommentEnd?] at h

theorem sameLine_skipInlineWithin (fuel : Nat) (t : Text) :
    SameLine (skipInlineWithin fuel t) t := by
  induction fuel generalizing t with
  | zero => exact sameLine_dropWhile t fun _ => isLineEnd_of_isInlineGap
  | succ fuel ih =>
      have hgap : SameLine (t.dropWhile isInlineGap) t :=
        sameLine_dropWhile t fun _ => isLineEnd_of_isInlineGap
      rw [skipInlineWithin]
      split
      · exact hgap
      · rename_i rest hrest
        rw [afterInlineComment?.eq_def] at hrest
        split at hrest
        · rename_i body hbody
          have hcomment := sameLine_cons (c := '/') rfl
            (sameLine_cons (c := '*') rfl (sameLine_afterInlineCommentEnd? hrest))
          rw [← hbody] at hcomment
          exact (ih rest).trans (hcomment.trans hgap)
        · simp at hrest

theorem sameLine_skipLineComment (t : Text) : SameLine (skipLineComment t) t := by
  rw [skipLineComment.eq_def]
  split
  · rename_i rest
    exact sameLine_cons rfl (sameLine_cons rfl (sameLine_restOfLine rest))
  · exact .refl t

def AtMostOneBreak (t : Text) : Prop := t = [] ∨ t = ['\n'] ∨ t = ['\r'] ∨ t = ['\r', '\n']

theorem exists_skipBreak (t : Text) :
    ∃ brk, t = brk ++ skipBreak t ∧ AtMostOneBreak brk ∧ ¬ PartsBreak brk (skipBreak t) := by
  rw [skipBreak.eq_def]
  split
  · exact ⟨['\r', '\n'], rfl, by simp [AtMostOneBreak], by simp [PartsBreak]⟩
  · rename_i rest hnot
    refine ⟨['\r'], rfl, by simp [AtMostOneBreak], ?_⟩
    rintro ⟨-, hhead⟩
    obtain ⟨more, rfl⟩ := List.head?_eq_some_iff.mp hhead
    exact hnot more rfl
  · exact ⟨['\n'], rfl, by simp [AtMostOneBreak], by simp [PartsBreak]⟩
  · exact ⟨[], rfl, by simp [AtMostOneBreak], by simp [PartsBreak]⟩

theorem exists_skipTrailing (t : Text) :
    ∃ lead brk, t = lead ++ (brk ++ skipTrailing t) ∧ (∀ c ∈ lead, isLineEnd c = false) ∧
      AtMostOneBreak brk ∧ ¬ PartsBreak brk (skipTrailing t) := by
  have hline : SameLine (skipLineComment (skipInlineWithin t.length t)) t :=
    (sameLine_skipLineComment _).trans (sameLine_skipInlineWithin _ t)
  obtain ⟨lead, ht, hlead⟩ := hline
  obtain ⟨brk, hrest, hbrk, hintact⟩ :=
    exists_skipBreak (skipLineComment (skipInlineWithin t.length t))
  exact ⟨lead, brk, ht.trans (congrArg (lead ++ ·) hrest), hlead, hbrk, hintact⟩

/-- How the two halves of a split lie in the source, with the white space between them. -/
structure Seam (t : Text) (s : Split) (space brk : Text) : Prop where
  text_eq : t = s.header ++ (space ++ brk) ++ s.body
  blank : ∀ c ∈ space, isBlank c = true
  inline : ∀ c ∈ space, isLineEnd c = false
  oneBreak : AtMostOneBreak brk
  count_eq : s.lineCount = countLineBreaks (s.header ++ (space ++ brk))
  intact : ¬ PartsBreak (s.header ++ (space ++ brk)) s.body
  ending : ∀ c, s.header.getLast? = some c → isBlank c = false
  bare : s.header = [] → space = [] ∧ brk = []

theorem isBlank_of_atMostOneBreak {brk : Text} (h : AtMostOneBreak brk) :
    ∀ c ∈ brk, isBlank c = true := by
  rw [← List.all_eq_true]
  rcases h with rfl | rfl | rfl | rfl <;> rfl

theorem countLineBreaks_inline {t : Text} (h : ∀ c ∈ t, isLineEnd c = false) :
    countLineBreaks t = 0 :=
  countLineBreaks_eq_zero fun c hc => by simpa [isLineEnd] using h c hc

theorem isLineEnd_of_not_isBlank {c : Char} (h : isBlank c = false) : isLineEnd c = false := by
  cases hend : isLineEnd c with
  | false => rfl
  | true =>
      rw [isLineEnd, Bool.or_eq_true, beq_iff_eq, beq_iff_eq] at hend
      rcases hend with rfl | rfl
      · exact absurd h (by decide)
      · exact absurd h (by decide)

theorem splitLines_of_ending {t : Text} {c : Char} (h : t.getLast? = some c)
    (hc : isLineEnd c = false) : splitLines t = closedLines t ++ [openLine t] := by
  rw [isLineEnd, Bool.or_eq_false_iff, beq_eq_false_iff_ne, beq_eq_false_iff_ne] at hc
  rw [splitLines_eq, if_neg (openLine_ne_nil h hc.1 hc.2)]

theorem length_splitLines_of_ending {t : Text} {c : Char} (h : t.getLast? = some c)
    (hc : isLineEnd c = false) : (splitLines t).length = countLineBreaks t + 1 := by
  rw [splitLines_of_ending h hc, List.length_append, length_closedLines, List.length_singleton]

theorem before_append (front rest : Text) : before (front ++ rest) rest = front := by
  simp [before]

theorem not_partsBreak_append {front brk back : Text}
    (hfront : ∀ c, front.getLast? = some c → isLineEnd c = false)
    (hbrk : ¬ PartsBreak brk back) : ¬ PartsBreak (front ++ brk) back := by
  rintro ⟨hlast, hhead⟩
  cases brk with
  | nil =>
      rw [List.append_nil] at hlast
      exact absurd (hfront _ hlast) (by decide)
  | cons c brk =>
      rw [List.getLast?_append_of_ne_nil _ (by simp)] at hlast
      exact hbrk ⟨hlast, hhead⟩

theorem header_of_semicolon (front : Text) {lead brk : Text} (hbrk : AtMostOneBreak brk) :
    trimEnd (front ++ ';' :: (lead ++ brk)) = front ++ ';' :: trimEnd lead := by
  rw [trimEnd_append_cons front _ (by decide),
    trimEnd_append_of_blank lead (isBlank_of_atMostOneBreak hbrk)]

theorem seam_of_semicolon {front lead brk : Text} {s : Split}
    (hheader : s.header = trimEnd (front ++ ';' :: (lead ++ brk)))
    (hcount : s.lineCount = countLineBreaks (front ++ ';' :: (lead ++ brk)))
    (hlead : ∀ c ∈ lead, isLineEnd c = false) (hbrk : AtMostOneBreak brk)
    (hintact : ¬ PartsBreak brk s.body) :
    ∃ space, Seam (front ++ ';' :: (lead ++ (brk ++ s.body))) s space brk := by
  obtain ⟨space, hspace, hblank⟩ := exists_trimEnd_append lead
  have hfront : s.header ++ (space ++ brk) = front ++ ';' :: (lead ++ brk) := by
    rw [hheader, header_of_semicolon front hbrk, List.append_assoc, List.cons_append,
      ← List.append_assoc (trimEnd lead), ← hspace]
  have hlast : ∀ c, (front ++ ';' :: lead).getLast? = some c → isLineEnd c = false := by
    intro c hc
    rw [List.getLast?_append_of_ne_nil _ (by simp)] at hc
    rcases List.mem_cons.mp (List.mem_of_getLast? hc) with rfl | hmem
    · rfl
    · exact hlead c hmem
  refine ⟨space, ?_, hblank, ?_, hbrk, ?_, ?_, ?_, ?_⟩
  · rw [hfront, List.append_assoc, List.cons_append, List.append_assoc]
  · intro c hc
    refine hlead c ?_
    rw [hspace]
    exact List.mem_append_right _ hc
  · rw [hfront]
    exact hcount
  · rw [hfront, ← List.cons_append, ← List.append_assoc]
    exact not_partsBreak_append hlast hintact
  · intro c hc
    exact isBlank_getLast?_trimEnd (hheader ▸ hc)
  · intro hnil
    rw [hheader, header_of_semicolon front hbrk] at hnil
    simp at hnil

/-- What a split is made of when there are declarations: the last of them ends with a semicolon,
and the rest of its line goes to the header. -/
theorem split_parts {t rest : Text} {s : Split} {ds : List Text} (h : split t = .ok s)
    (hread : declarations t = .ok (ds, rest)) (hds : ds ≠ []) :
    ∃ front lead brk, t = front ++ ';' :: rest ∧ rest = lead ++ (brk ++ s.body) ∧
      s.header = trimEnd (front ++ ';' :: (lead ++ brk)) ∧
      s.lineCount = countLineBreaks (front ++ ';' :: (lead ++ brk)) ∧
      (∀ c ∈ lead, isLineEnd c = false) ∧ AtMostOneBreak brk ∧ ¬ PartsBreak brk s.body := by
  rcases declarationsWithin_ok hread with ⟨hnil, -⟩ | ⟨-, front, hfront⟩
  · exact absurd hnil hds
  · obtain ⟨d, ds, rfl⟩ := List.exists_cons_of_ne_nil hds
    simp only [split, hread, Except.ok.injEq] at h
    subst h
    obtain ⟨lead, brk, hrest, hlead, hbrk, hintact⟩ := exists_skipTrailing rest
    have ht : t = front ++ ';' :: (lead ++ brk) ++ skipTrailing rest := by
      rw [hfront, List.append_assoc, List.cons_append, List.append_assoc, ← hrest]
    have hbefore : before t (skipTrailing rest) = front ++ ';' :: (lead ++ brk) := by
      rw [ht, before_append]
    exact ⟨front, lead, brk, hfront, hrest, by rw [hbefore], by rw [hbefore], hlead, hbrk, hintact⟩

theorem split_bare {t rest : Text} {s : Split} (h : split t = .ok s)
    (hread : declarations t = .ok ([], rest)) : s = ⟨[], t, 0, []⟩ := by
  simp only [split, hread, Except.ok.injEq] at h
  exact h.symm

theorem exists_declarations {t : Text} {s : Split} (h : split t = .ok s) :
    ∃ ds rest, declarations t = .ok (ds, rest) := by
  cases hread : declarations t with
  | error fault => simp [split, hread] at h
  | ok found => exact ⟨found.1, found.2, rfl⟩

theorem split_seam {t : Text} {s : Split} (h : split t = .ok s) :
    ∃ space brk, Seam t s space brk := by
  obtain ⟨ds, rest, hread⟩ := exists_declarations h
  by_cases hds : ds = []
  · subst hds
    obtain rfl := split_bare h hread
    refine ⟨[], [], ?_⟩
    constructor <;> simp [AtMostOneBreak, countLineBreaks, PartsBreak]
  · obtain ⟨front, lead, brk, rfl, rfl, hheader, hcount, hlead, hbrk, hintact⟩ :=
      split_parts h hread hds
    obtain ⟨space, hseam⟩ := seam_of_semicolon hheader hcount hlead hbrk hintact
    exact ⟨space, brk, hseam⟩

theorem countLineBreaks_header {t rest : Text} {s : Split} {ds : List Text}
    (h : split t = .ok s) (hread : declarations t = .ok (ds, rest)) (hds : ds ≠ []) :
    s.header ≠ [] ∧ countLineBreaks s.header = countLineBreaks (before t rest) := by
  obtain ⟨front, lead, brk, rfl, rfl, hheader, -, hlead, hbrk, -⟩ := split_parts h hread hds
  obtain ⟨space, hspace, -⟩ := exists_trimEnd_append lead
  have hinline : ∀ c ∈ trimEnd lead, isLineEnd c = false := by
    intro c hc
    refine hlead c ?_
    rw [hspace]
    exact List.mem_append_left _ hc
  have hcut : ¬ PartsBreak (front ++ [';']) (trimEnd lead) := by
    rintro ⟨hlast, -⟩
    simp at hlast
  have hend (rest : Text) : front ++ ';' :: rest = (front ++ [';']) ++ rest := by simp
  rw [hheader, header_of_semicolon front hbrk]
  refine ⟨by simp, ?_⟩
  rw [hend (trimEnd lead), hend (lead ++ _), before_append, countLineBreaks_append hcut,
    countLineBreaks_inline hinline, Nat.add_zero]

namespace Seam

variable {t space brk : Text} {s : Split}

theorem header_intact (h : Seam t s space brk) (back : Text) : ¬ PartsBreak s.header back := by
  rintro ⟨hlast, -⟩
  exact absurd (h.ending _ hlast) (by decide)

theorem space_intact (h : Seam t s space brk) (back : Text) : ¬ PartsBreak space back := by
  rintro ⟨hlast, -⟩
  exact absurd (h.inline _ (List.mem_of_getLast? hlast)) (by decide)

theorem countLineBreaks_gap (h : Seam t s space brk) :
    countLineBreaks (space ++ brk) = if brk = [] then 0 else 1 := by
  rw [countLineBreaks_append (h.space_intact brk), countLineBreaks_inline h.inline, Nat.zero_add]
  rcases h.oneBreak with rfl | rfl | rfl | rfl <;> rfl

theorem lineCount_eq (h : Seam t s space brk) :
    s.lineCount = countLineBreaks s.header + if brk = [] then 0 else 1 := by
  rw [h.count_eq, countLineBreaks_append (h.header_intact _), h.countLineBreaks_gap]

theorem header_line (h : Seam t s space brk) {k : Nat} {line : Text}
    (hk : s.headerLines[k]? = some line) :
    ∃ rest, (splitLines t)[k]? = some (line ++ rest) ∧
      (k + 1 < s.headerLines.length → rest = []) := by
  rw [h.text_eq, List.append_assoc]
  exact splitLines_append_front (h.header_intact _) hk

theorem body_line (h : Seam t s space brk) {k : Nat} {line : Text}
    (hk : s.bodyLines[k]? = some line) :
    ∃ lead, (splitLines t)[s.lineCount + k]? = some (lead ++ line) ∧ (k ≠ 0 → lead = []) := by
  rw [h.text_eq, h.count_eq]
  exact splitLines_append_back h.intact hk

theorem length_of_body (h : Seam t s space brk) (hbody : s.body ≠ []) :
    (splitLines t).length = s.lineCount + s.bodyLines.length := by
  rw [h.text_eq, h.count_eq]
  exact length_splitLines_append h.intact hbody

theorem headerLines_eq (h : Seam t s space brk) (hheader : s.header ≠ []) :
    s.headerLines = closedLines s.header ++ [openLine s.header] := by
  have hlast := List.getLast?_eq_some_getLast hheader
  exact splitLines_of_ending hlast (isLineEnd_of_not_isBlank (h.ending _ hlast))

theorem length_headerLines (h : Seam t s space brk) (hheader : s.header ≠ []) :
    s.headerLines.length = countLineBreaks s.header + 1 := by
  rw [h.headerLines_eq hheader, List.length_append, length_closedLines, List.length_singleton]

theorem ending_inline (h : Seam t s space brk) {c : Char}
    (hc : (s.header ++ space).getLast? = some c) : isLineEnd c = false := by
  by_cases hspace : space = []
  · rw [hspace, List.append_nil] at hc
    exact isLineEnd_of_not_isBlank (h.ending c hc)
  · rw [List.getLast?_append_of_ne_nil _ hspace] at hc
    exact h.inline c (List.mem_of_getLast? hc)

theorem length_of_no_body (h : Seam t s space brk) (hbody : s.body = []) :
    (splitLines t).length = s.headerLines.length := by
  have ht : t = s.header ++ space ++ brk := by
    rw [h.text_eq, hbody, List.append_nil, List.append_assoc]
  by_cases hheader : s.header = []
  · obtain ⟨rfl, rfl⟩ := h.bare hheader
    rw [ht, Split.headerLines, List.append_nil, List.append_nil]
  · have hcount : countLineBreaks (s.header ++ space) = countLineBreaks s.header := by
      rw [countLineBreaks_append (h.header_intact space), countLineBreaks_inline h.inline,
        Nat.add_zero]
    rw [ht, h.length_headerLines hheader, ← hcount]
    by_cases hbrk : brk = []
    · have hne : s.header ++ space ≠ [] := by simp [hheader]
      have hlast := List.getLast?_eq_some_getLast hne
      rw [hbrk, List.append_nil]
      exact length_splitLines_of_ending hlast (h.ending_inline hlast)
    · have hcut : ¬ PartsBreak (s.header ++ space) brk := by
        rintro ⟨hr, -⟩
        exact absurd (h.ending_inline hr) (by decide)
      have hone : (splitLines brk).length = 1 := by
        rcases h.oneBreak with rfl | rfl | rfl | rfl
        · exact absurd rfl hbrk
        · rfl
        · rfl
        · rfl
      rw [length_splitLines_append hcut hbrk, hone]

end Seam

end ScriptWeave.Header
