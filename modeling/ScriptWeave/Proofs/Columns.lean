import ScriptWeave.Proofs.Header.Overlap
import ScriptWeave.Proofs.LineStart
import ScriptWeave.Proofs.Markers

/-!
Characters of a merged document and the characters they were taken from. Tracing finds the line a
character came from and leaves its column alone. That is its column on the original line too, unless
the body of an imported fragment begins in the middle of a line: there the original column is further
right by what the line holds in front of the body.
-/

namespace ScriptWeave

open Text

/-- The span is the line and column, in the fragment, of the character at an offset of its text. -/
def Span.PointsAt (s : Span) (f : Fragment) (offset : Nat) : Prop :=
  ∃ line column content, f.lines[line]? = some content ∧ column < content.length ∧
    lineStart line f.text + column = offset ∧
    s = ⟨some f.path, some ((line : Int) + 1), some ((column : Int) + 1)⟩

theorem Header.openLine_append_brk {front brk : Text} (hbrk : AtMostOneBreak brk) (hne : brk ≠ [])
    (hcut : ¬ PartsBreak front brk) : openLine (front ++ brk) = [] := by
  have hlines : breakLines brk = [[], []] := by
    rcases hbrk with rfl | rfl | rfl | rfl
    · exact absurd rfl hne
    · rfl
    · rfl
    · rfl
  have hb : breakLines (front ++ brk) = (closedLines front ++ [openLine front]) ++ [[]] := by
    rw [breakLines_append hcut, hlines, List.modifyHead_cons, List.append_nil, List.append_assoc]
    rfl
  exact openLine_eq hb

theorem Header.openLine_before_eq_nil_iff {t : Text} {s : Split} (h : split t = .ok s) :
    openLine (before t s.body) = [] ↔ endLine? t ≠ some s.lineCount := by
  obtain ⟨space, brk, hseam⟩ := split_seam h
  have hbefore : before t s.body = s.header ++ space ++ brk := by
    rw [hseam.text_eq, before_append, List.append_assoc]
  rw [hbefore, endLine?_of_split h, hseam.lineCount_eq]
  by_cases hheader : s.header = []
  · obtain ⟨rfl, rfl⟩ := hseam.bare hheader
    simp [hheader, openLine, breakLines]
  · rw [if_neg hheader]
    have hlast := List.getLast?_eq_some_getLast (show s.header ++ space ≠ [] by simp [hheader])
    have hinline := hseam.ending_inline hlast
    by_cases hbrk : brk = []
    · rw [isLineEnd, Bool.or_eq_false_iff, beq_eq_false_iff_ne, beq_eq_false_iff_ne] at hinline
      simp [hbrk, openLine_ne_nil hlast hinline.1 hinline.2]
    · have hcut : ¬ PartsBreak (s.header ++ space) brk := by
        rintro ⟨hr, -⟩
        exact absurd (hseam.ending_inline hr) (by decide)
      rw [openLine_append_brk hseam.oneBreak hbrk hcut]
      simp [hbrk]

namespace Piece

/-- The stretch of the fragment's text that the piece takes over. -/
def text : Piece → Text
  | header i => i.split.header
  | whole f => f.text
  | body i => i.split.body

/-- What the fragment's text holds in front of that stretch. -/
def lead : Piece → Text
  | header _ => []
  | whole _ => []
  | body i => Header.before i.fragment.text i.split.body

/-- The offset, in the fragment's text, of the character at a column of a line of the piece. -/
def offsetOf (p : Piece) (j column : Nat) : Nat := p.lead.length + (lineStart j p.text + column)

/-- How many characters of the original line lie in front of a line of the piece. -/
def indent (p : Piece) (j : Nat) : Nat := if j = 0 then (openLine p.lead).length else 0

/-- The line of the piece is the rest of a line that the last declaration ends on. -/
def SharesLine (p : Piece) (j : Nat) : Prop :=
  ∃ i, p = body i ∧ j = 0 ∧ Header.SharedLine i.fragment.text i.split i.split.lineCount

theorem lines_eq (p : Piece) : p.lines = splitLines p.text := by
  cases p <;> rfl

structure Lies (p : Piece) (rest : Text) : Prop where
  text_eq : p.fragment.text = p.lead ++ (p.text ++ rest)
  leadIntact : ¬ PartsBreak p.lead (p.text ++ rest)
  textIntact : ¬ PartsBreak p.text rest
  offset_eq : countLineBreaks p.lead = p.offset

theorem exists_lies {p : Piece} (hread : p.IsRead) : ∃ rest, p.Lies rest := by
  cases p with
  | header i =>
      obtain ⟨space, brk, hseam⟩ := Header.split_seam hread
      refine ⟨(space ++ brk) ++ i.split.body, ?_, ?_, hseam.header_intact _, rfl⟩
      · exact hseam.text_eq.trans (List.append_assoc _ _ _)
      · simp [lead, PartsBreak]
  | whole f =>
      refine ⟨[], ?_, ?_, ?_, rfl⟩
      · exact (List.append_nil f.text).symm
      · simp [lead, PartsBreak]
      · simp [PartsBreak]
  | body i =>
      obtain ⟨space, brk, hseam⟩ := Header.split_seam hread
      have hlead : lead (body i) = i.split.header ++ (space ++ brk) := by
        rw [lead, hseam.text_eq, Header.before_append]
      refine ⟨[], ?_, ?_, ?_, ?_⟩
      · rw [hlead, List.append_nil]
        exact hseam.text_eq
      · rw [hlead, List.append_nil]
        exact hseam.intact
      · simp [PartsBreak]
      · rw [hlead]
        exact hseam.count_eq.symm

namespace Lies

variable {p : Piece} {rest row : Text} {j : Nat}

theorem original_line (h : p.Lies rest) (hj : p.lines[j]? = some row) :
    ∃ lead more, p.fragment.lines[j + p.offset]? = some (lead ++ (row ++ more)) ∧
      lead.length = p.indent j := by
  rw [lines_eq] at hj
  obtain ⟨more, hmore, -⟩ := splitLines_append_front h.textIntact hj
  refine ⟨if j = 0 then openLine p.lead else [], more, ?_, ?_⟩
  · have horiginal := getElem?_splitLines_append h.leadIntact hmore
    rw [← h.text_eq, h.offset_eq, Nat.add_comm] at horiginal
    exact horiginal
  · rw [indent]
    split <;> rfl

theorem offsetOf_eq (h : p.Lies rest) (hj : p.lines[j]? = some row) (column : Nat) :
    p.offsetOf j column =
      lineStart (j + p.offset) p.fragment.text + (column + p.indent j) := by
  rw [lines_eq] at hj
  have hfront := lineStart_append_front h.textIntact (le_countLineBreaks_of_splitLines hj)
  have hback := lineStart_append h.leadIntact j
  rw [← h.text_eq, h.offset_eq, hfront] at hback
  rw [offsetOf, indent, Nat.add_comm j p.offset]
  omega

theorem pointsAt (h : p.Lies rest) (hj : p.lines[j]? = some row) {column : Nat}
    (hcolumn : column < row.length) :
    Span.PointsAt ⟨some p.fragment.path, some (((j + p.offset : Nat) : Int) + 1),
      some (((column + p.indent j : Nat) : Int) + 1)⟩ p.fragment (p.offsetOf j column) := by
  obtain ⟨lead, more, horiginal, hlead⟩ := h.original_line hj
  refine ⟨j + p.offset, column + p.indent j, _, horiginal, ?_, (h.offsetOf_eq hj column).symm, rfl⟩
  rw [List.length_append, List.length_append]
  omega

theorem getElem?_offsetOf (h : p.Lies rest) (hj : p.lines[j]? = some row) {column : Nat}
    (hcolumn : column < row.length) : p.fragment.text[p.offsetOf j column]? = row[column]? := by
  obtain ⟨lead, more, horiginal, hlead⟩ := h.original_line hj
  rw [h.offsetOf_eq hj column, getElem?_lineStart_add horiginal (by simp; omega), ← hlead,
    List.getElem?_append_right (by omega), Nat.add_sub_cancel, List.getElem?_append_left hcolumn]

end Lies

theorem indent_eq_zero_iff {p : Piece} (hread : p.IsRead) {j : Nat} {row : Text}
    (hj : p.lines[j]? = some row) : p.indent j = 0 ↔ ¬ p.SharesLine j := by
  cases p with
  | header i => simp [indent, lead, SharesLine, openLine, breakLines]
  | whole f => simp [indent, lead, SharesLine, openLine, breakLines]
  | body i =>
      by_cases hzero : j = 0
      · subst hzero
        have hbody : i.split.body ≠ [] := by
          intro hnil
          rw [lines, Header.bodyLines_of_no_body hnil] at hj
          simp at hj
        rw [indent, if_pos rfl, List.length_eq_zero_iff, lead,
          Header.openLine_before_eq_nil_iff hread]
        simp [SharesLine, Header.SharedLine, hbody]
      · simp [indent, SharesLine, hzero]

end Piece

/-- Line and column are traced together: for every column of a line that is no marker, the traced
span is that of the very character of the fragment that stands there. -/
def ColumnsSurvive (hoist : Bool) (primary : Fragment) (imported : List Fragment)
    (documentPath : Text) (fragmentPaths : List Text) : Prop :=
  ∀ imports d, Import.ofFragments imported = .ok imports → merge hoist primary imported = .ok d →
    ∀ p j i row column, StandsAt (pieces hoist primary imports) p j i →
      d.lines[i]? = some row → column < row.length →
      Span.PointsAt
        (Origin.traceSpan ⟨d.ranges, documentPath, fragmentPaths⟩
          ⟨some documentPath, some ((i : Int) + 1), some ((column : Int) + 1)⟩)
        p.fragment (p.offsetOf j column)

theorem traced_columns (hoist : Bool) (primary : Fragment) (imported : List Fragment)
    (documentPath : Text) (fragmentPaths : List Text)
    (headers : ∀ f ∈ imported, ∃ s, Header.split f.text = .ok s) :
    ∃ imports d, Import.ofFragments imported = .ok imports ∧
      merge hoist primary imported = .ok d ∧
      ∀ i row column, d.lines[i]? = some row → i ∉ d.markers → column < row.length →
        ∃ p j, StandsAt (pieces hoist primary imports) p j i ∧
          p.fragment ∈ primary :: imported ∧ p.lines[j]? = some row ∧
          (∃ rest, p.fragment.text = p.lead ++ (p.text ++ rest)) ∧
          p.fragment.text[p.offsetOf j column]? = row[column]? ∧
          Origin.traceSpan ⟨d.ranges, documentPath, fragmentPaths⟩
              ⟨some documentPath, some ((i : Int) + 1), some ((column : Int) + 1)⟩ =
            ⟨some p.fragment.path, some (((j + p.offset : Nat) : Int) + 1),
              some ((column : Int) + 1)⟩ ∧
          Span.PointsAt ⟨some p.fragment.path, some (((j + p.offset : Nat) : Int) + 1),
            some (((column + p.indent j : Nat) : Int) + 1)⟩ p.fragment (p.offsetOf j column) ∧
          (p.indent j = 0 ↔ ¬ p.SharesLine j) := by
  obtain ⟨imports, hread, rfl, hsplits⟩ := exists_imports headers
  refine ⟨imports, _, hread, merge_eq hread hoist primary, ?_⟩
  intro i row column hline hcode hcolumn
  have hi := (List.getElem?_eq_some_iff.mp hline).1
  obtain ⟨p, j, hstands⟩ := exists_standsAt hi hcode
  have hj : p.lines[j]? = some row := hstands.lines_ofAdditions.symm.trans hline
  have hpiece := isRead_of_mem_pieces hsplits hstands.mem
  obtain ⟨rest, hlies⟩ := Piece.exists_lies hpiece
  refine ⟨p, j, hstands, fragment_of_mem_pieces hstands.mem, hj, ⟨rest, hlies.text_eq⟩,
    hlies.getElem?_offsetOf hj hcolumn, ?_, hlies.pointsAt hj hcolumn,
    Piece.indent_eq_zero_iff hpiece hj⟩
  refine Origin.traceSpan_of_isInDocument rfl (Origin.isInDocument_documentPath _) ?_
  rw [Int.add_sub_cancel]
  exact hstands.trace

theorem traced_columns_shared_line :
    (∀ f ∈ ([⟨"/lib", "using A; y"⟩] : List Fragment), ∃ s, Header.split f.text = .ok s) ∧
    ∃ d, merge true ⟨"/main", "x"⟩ [⟨"/lib", "using A; y"⟩] = .ok d ∧
      (d.lines[4]? = some "y".toList ∧ 4 ∉ d.markers) ∧
      ∃ (p : Piece) (j : Nat),
        Origin.traceSpan ⟨d.ranges, "/doc", []⟩ ⟨some "/doc".toList, some 5, some 1⟩ =
          ⟨some p.fragment.path, some (((j + p.offset : Nat) : Int) + 1), some 1⟩ ∧
        p.fragment.text[p.offsetOf j 0]? = some 'y' ∧ (p.indent j = 0 ↔ ¬ p.SharesLine j) := by
  have headers : ∀ f ∈ ([⟨"/lib", "using A; y"⟩] : List Fragment),
      ∃ s, Header.split f.text = .ok s := by
    intro f hf
    rw [List.mem_singleton] at hf
    subst hf
    exact ⟨⟨"using A;", "y", 0, ["using A;"]⟩, rfl⟩
  obtain ⟨imports, d, -, hmerge, htraced⟩ :=
    traced_columns true ⟨"/main", "x"⟩ [⟨"/lib", "using A; y"⟩] "/doc" [] headers
  have hdocument : merge true ⟨"/main", "x"⟩ [⟨"/lib", "using A; y"⟩] =
      .ok ⟨["using A;", "#line 1 \"/main\"", "x", "#line 1 \"/lib\"", "y"], [1, 3],
        ⟨[⟨0, 1, "/lib", 0⟩, ⟨2, 3, "/main", 0⟩, ⟨4, 5, "/lib", 0⟩], [0, 2, 4]⟩⟩ := rfl
  obtain rfl := Except.ok.inj (hmerge.symm.trans hdocument)
  obtain ⟨p, j, -, -, -, -, hchar, hspan, -, hindent⟩ :=
    htraced 4 "y".toList 0 rfl (by decide) (by decide)
  exact ⟨headers, _, hmerge, ⟨rfl, by decide⟩, p, j, hspan, hchar, hindent⟩

/-- The `y` behind the declaration is the tenth character of its line and traced to the first. -/
theorem not_columnsSurvive_of_shared_line :
    ¬ ColumnsSurvive true ⟨"/main", "x"⟩ [⟨"/lib", "using A; y"⟩] "/doc" [] := by
  intro hclaim
  have hpoints := hclaim [⟨⟨"/lib", "using A; y"⟩, ⟨"using A;", "y", 0, ["using A;"]⟩⟩] _ rfl rfl
    (.body ⟨⟨"/lib", "using A; y"⟩, ⟨"using A;", "y", 0, ["using A;"]⟩⟩) 0 4 "y" 0
    ⟨[.header ⟨⟨"/lib", "using A; y"⟩, ⟨"using A;", "y", 0, ["using A;"]⟩⟩,
      .whole ⟨"/main", "x"⟩], [], rfl, rfl, by decide⟩ rfl (by decide)
  obtain ⟨line, column, content, -, -, hoffset, hspan⟩ := hpoints
  have htraced : (⟨some "/lib".toList, some 1, some 1⟩ : Span) =
      ⟨some "/lib".toList, some ((line : Int) + 1), some ((column : Int) + 1)⟩ := hspan
  have hplace : lineStart line "using A; y" + column = 9 := hoffset
  simp only [Span.mk.injEq, Option.some.injEq] at htraced
  obtain ⟨rfl, rfl⟩ : line = 0 ∧ column = 0 := by omega
  exact absurd hplace (by decide)

end ScriptWeave
