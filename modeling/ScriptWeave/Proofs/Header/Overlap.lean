import ScriptWeave.Proofs.Header.Seam

namespace ScriptWeave.Header

open Text

def endLine? (t : Text) : Option Nat :=
  match declarations t with
  | .ok (_ :: _, rest) => some (countLineBreaks (before t rest))
  | _ => none

/-- The last declaration ends on the line and the body starts on it. -/
def SharedLine (t : Text) (s : Split) (line : Int) : Prop :=
  s.body ≠ [] ∧ line = s.lineCount ∧ endLine? t = some s.lineCount

instance (t : Text) (s : Split) (line : Int) : Decidable (SharedLine t s line) :=
  inferInstanceAs (Decidable (_ ∧ _ ∧ _))

section Overlap

variable {t : Text} {s : Split}

theorem endLine?_of_split (h : split t = .ok s) :
    endLine? t = if s.header = [] then none else some (countLineBreaks s.header) := by
  obtain ⟨ds, rest, hread⟩ := exists_declarations h
  cases ds with
  | nil =>
      obtain rfl := split_bare h hread
      simp [endLine?, hread]
  | cons d ds =>
      obtain ⟨hheader, hcount⟩ := countLineBreaks_header h hread (by simp)
      simp [endLine?, hread, hheader, hcount]

theorem length_headerLines_eq (h : split t = .ok s) :
    s.headerLines.length = s.lineCount + if endLine? t = some s.lineCount then 1 else 0 := by
  obtain ⟨space, brk, hseam⟩ := split_seam h
  rw [endLine?_of_split h, hseam.lineCount_eq]
  by_cases hheader : s.header = []
  · obtain ⟨-, rfl⟩ := hseam.bare hheader
    simp [hheader, Split.headerLines, splitLines, breakLines, dropLastEmpty, countLineBreaks]
  · rw [if_neg hheader, hseam.length_headerLines hheader]
    by_cases hbrk : brk = []
    · simp [hbrk]
    · simp [hbrk]

theorem bodyLines_of_no_body (hbody : s.body = []) : s.bodyLines = [] := by
  rw [Split.bodyLines, hbody]
  rfl

theorem mem_body_iff (h : split t = .ok s) (line : Int) :
    ((s.lineCount : Int) ≤ line ∧ line < s.lineCount + s.bodyLines.length) ↔
      s.body ≠ [] ∧ (s.lineCount : Int) ≤ line ∧ line < (splitLines t).length := by
  obtain ⟨space, brk, hseam⟩ := split_seam h
  by_cases hbody : s.body = []
  · simp [hbody, bodyLines_of_no_body hbody]
  · have hlength := hseam.length_of_body hbody
    constructor
    · exact fun hline => ⟨hbody, by omega⟩
    · exact fun hline => by omega

theorem lines_covered (h : split t = .ok s) (line : Int) :
    ((if 0 ≤ line ∧ line < s.headerLines.length then 1 else 0) +
        if (s.lineCount : Int) ≤ line ∧ line < s.lineCount + s.bodyLines.length then 1 else 0) =
      if 0 ≤ line ∧ line < (splitLines t).length then if SharedLine t s line then 2 else 1
      else 0 := by
  obtain ⟨space, brk, hseam⟩ := split_seam h
  by_cases hbody : s.body = []
  · have hlength := hseam.length_of_no_body hbody
    have hnone : ¬ SharedLine t s line := fun hshared => hshared.1 hbody
    rw [bodyLines_of_no_body hbody, hlength, if_neg hnone, List.length_nil]
    split <;> split <;> omega
  · have hlength := hseam.length_of_body hbody
    have hpos : 0 < s.bodyLines.length := List.length_pos_of_ne_nil (splitLines_ne_nil hbody)
    have hheader := length_headerLines_eq h
    by_cases hshared : SharedLine t s line
    · obtain ⟨-, hline, hend⟩ := id hshared
      rw [if_pos hend] at hheader
      rw [if_pos hshared]
      split <;> split <;> split <;> omega
    · rw [if_neg hshared]
      by_cases hend : endLine? t = some s.lineCount
      · have hline : line ≠ s.lineCount := fun hline => hshared ⟨hbody, hline, hend⟩
        rw [if_pos hend] at hheader
        split <;> split <;> split <;> omega
      · rw [if_neg hend] at hheader
        split <;> split <;> split <;> omega

theorem shared_line (h : split t = .ok s) {line : Int} (hshared : SharedLine t s line) :
    ∃ front gap back, s.headerLines[s.lineCount]? = some front ∧ (∀ c ∈ gap, isBlank c = true) ∧
      s.bodyLines[0]? = some back ∧
      (splitLines t)[s.lineCount]? = some (front ++ (gap ++ back)) := by
  obtain ⟨hbody, -, hend⟩ := hshared
  obtain ⟨space, brk, hseam⟩ := split_seam h
  have hheader : s.header ≠ [] := by
    intro hnil
    rw [endLine?_of_split h, if_pos hnil] at hend
    simp at hend
  have hcount := hseam.lineCount_eq
  rw [endLine?_of_split h, if_neg hheader, Option.some.injEq] at hend
  have hbrk : brk = [] := by
    by_contra hbrk
    rw [if_neg hbrk] at hcount
    omega
  have ht : t = s.header ++ (space ++ s.body) := by
    rw [hseam.text_eq, hbrk, List.append_nil, List.append_assoc]
  have hspace : countLineBreaks space = 0 := countLineBreaks_inline hseam.inline
  have hindex : s.lineCount = (closedLines s.header).length := by
    rw [length_closedLines, hend]
  obtain ⟨back, more, hback⟩ := List.exists_cons_of_ne_nil (splitLines_ne_nil hbody)
  refine ⟨openLine s.header, space, back, ?_, hseam.blank, ?_, ?_⟩
  · rw [hseam.headerLines_eq hheader, hindex, List.getElem?_append_right (Nat.le_refl _),
      Nat.sub_self]
    rfl
  · rw [Split.bodyLines, hback]
    rfl
  · have hrest : splitLines (space ++ s.body) = (space ++ back) :: more := by
      rw [splitLines_append (hseam.space_intact _) hbody, closedLines_of_countLineBreaks hspace,
        openLine_of_countLineBreaks hspace, hback]
      rfl
    rw [hindex, ht, splitLines_append (hseam.header_intact _) (by simp [hbody]), hrest,
      List.getElem?_append_right (Nat.le_refl _), Nat.sub_self]
    rfl

end Overlap

end ScriptWeave.Header
