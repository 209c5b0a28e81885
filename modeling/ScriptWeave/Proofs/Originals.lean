import ScriptWeave.Proofs.Pieces

namespace ScriptWeave

namespace Piece

/-- How line `j` of a piece lies in the original line: the last line of a header may miss the end,
the first line of a body the start, and all others are whole. -/
def TakesOver (p : Piece) (j : Nat) (line original : Text) : Prop :=
  match p with
  | header i =>
      ∃ rest, original = line ++ rest ∧ (j + 1 < i.split.headerLines.length → rest = [])
  | whole _ => original = line
  | body _ => ∃ lead, original = lead ++ line ∧ (j ≠ 0 → lead = [])

def IsRead : Piece → Prop
  | header i => Header.split i.fragment.text = .ok i.split
  | whole _ => True
  | body i => Header.split i.fragment.text = .ok i.split

theorem exists_original {p : Piece} (hread : p.IsRead) {j : Nat} {line : Text}
    (hj : p.lines[j]? = some line) :
    ∃ original, p.fragment.lines[j + p.offset]? = some original ∧ p.TakesOver j line original := by
  cases p with
  | header i =>
      obtain ⟨space, brk, hseam⟩ := Header.split_seam hread
      obtain ⟨rest, hline, hrest⟩ := hseam.header_line hj
      exact ⟨line ++ rest, hline, rest, rfl, hrest⟩
  | whole f => exact ⟨line, hj, rfl⟩
  | body i =>
      obtain ⟨space, brk, hseam⟩ := Header.split_seam hread
      obtain ⟨lead, hline, hlead⟩ := hseam.body_line hj
      rw [Nat.add_comm] at hline
      exact ⟨lead ++ line, hline, lead, rfl, hlead⟩

end Piece

theorem mem_pieces {hoist : Bool} {primary : Fragment} {imports : List Import} {p : Piece}
    (h : p ∈ pieces hoist primary imports) :
    p = .whole primary ∨ ∃ i ∈ imports, p = .header i ∨ p = .body i := by
  rw [pieces, List.mem_append, List.mem_cons] at h
  rcases h with hheader | rfl | hbody
  · cases hoist with
    | false => simp at hheader
    | true =>
        obtain ⟨i, hi, rfl⟩ := List.mem_map.mp hheader
        exact Or.inr ⟨i, hi, Or.inl rfl⟩
  · exact Or.inl rfl
  · obtain ⟨i, hi, rfl⟩ := List.mem_map.mp hbody
    exact Or.inr ⟨i, hi, Or.inr rfl⟩

theorem isRead_of_mem_pieces {hoist : Bool} {primary : Fragment} {imports : List Import}
    (h : ∀ i ∈ imports, Header.split i.fragment.text = .ok i.split) {p : Piece}
    (hp : p ∈ pieces hoist primary imports) : p.IsRead := by
  rcases mem_pieces hp with rfl | ⟨i, hi, rfl | rfl⟩
  · trivial
  · exact h i hi
  · exact h i hi

theorem fragment_of_mem_pieces {hoist : Bool} {primary : Fragment} {imports : List Import}
    {p : Piece} (hp : p ∈ pieces hoist primary imports) :
    p.fragment ∈ primary :: imports.map Import.fragment := by
  rcases mem_pieces hp with rfl | ⟨i, hi, rfl | rfl⟩
  · exact List.mem_cons_self
  · exact List.mem_cons_of_mem _ (List.mem_map_of_mem hi)
  · exact List.mem_cons_of_mem _ (List.mem_map_of_mem hi)

theorem StandsAt.mem {ps : List Piece} {p : Piece} {j i : Nat} (h : StandsAt ps p j i) :
    p ∈ ps := by
  obtain ⟨front, back, rfl, -⟩ := h
  simp

section Document

open Document

variable {ps : List Piece} {p : Piece} {j i : Nat}

theorem StandsAt.lines_ofAdditions (h : StandsAt ps p j i) :
    (ofAdditions (spread ps)).lines[i]? = p.lines[j]? :=
  h.line

theorem StandsAt.trace (h : StandsAt ps p j i) :
    (ofAdditions (spread ps)).ranges.trace i =
      some (p.fragment.path, ((j + p.offset : Nat) : Int)) := by
  rw [trace_ofAdditions, h.origin, Option.join_some, Int.natCast_add]

theorem exists_standsAt (hi : i < (ofAdditions (spread ps)).lines.length)
    (hm : i ∉ (ofAdditions (spread ps)).markers) : ∃ p j, StandsAt ps p j i := by
  have hheight : i < heightOf ps := by
    rw [← length_allLines_spread]
    exact hi
  rcases standsAt_or_markedAt hheight with hline | ⟨p, hmarker⟩
  · exact hline
  · refine absurd ((mem_markers_iff _ _).mpr ⟨hi, ?_⟩) hm
    rw [trace_ofAdditions, hmarker.origin]
    rfl

theorem trace_outside (ps : List Piece) (line : Int)
    (h : line < 0 ∨ (ofAdditions (spread ps)).lines.length ≤ line ∨
      ∃ m ∈ (ofAdditions (spread ps)).markers, line = m) :
    (ofAdditions (spread ps)).ranges.trace line = none := by
  rcases h with hneg | hpast | ⟨m, hm, rfl⟩
  · exact trace_of_neg _ hneg
  · exact trace_of_length_le _ hpast
  · exact ((mem_markers_iff _ _).mp hm).2

end Document

theorem merged_lines_original (hoist : Bool) (primary : Fragment) (imported : List Fragment)
    (headers : ∀ f ∈ imported, ∃ s, Header.split f.text = .ok s) :
    ∃ imports d, Import.ofFragments imported = .ok imports ∧
      mergeAdditions hoist primary imports = spread (pieces hoist primary imports) ∧
      merge hoist primary imported = .ok d ∧
      (∀ i, i < d.lines.length → i ∉ d.markers →
        ∃ p j line original, StandsAt (pieces hoist primary imports) p j i ∧
          p.fragment ∈ primary :: imported ∧
          d.lines[i]? = some line ∧ p.lines[j]? = some line ∧
          d.ranges.trace i = some (p.fragment.path, ((j + p.offset : Nat) : Int)) ∧
          p.fragment.lines[j + p.offset]? = some original ∧ p.TakesOver j line original) ∧
      ∀ line : Int, (line < 0 ∨ d.lines.length ≤ line ∨ ∃ m ∈ d.markers, line = m) →
        d.ranges.trace line = none := by
  obtain ⟨imports, hread, rfl, hsplits⟩ := exists_imports headers
  refine ⟨imports, _, hread, mergeAdditions_eq hoist primary imports, merge_eq hread hoist primary,
    ?_, trace_outside _⟩
  intro i hi hm
  obtain ⟨p, j, hstands⟩ := exists_standsAt hi hm
  have hmem := hstands.mem
  obtain ⟨front, back, hps, hindex, hj⟩ := id hstands
  have hline := List.getElem?_eq_getElem hj
  obtain ⟨original, horiginal, htakes⟩ :=
    Piece.exists_original (isRead_of_mem_pieces hsplits hmem) hline
  exact ⟨p, j, p.lines[j], original, hstands, fragment_of_mem_pieces hmem,
    hstands.lines_ofAdditions.trans hline, hline, hstands.trace, horiginal, htakes⟩

theorem merged_lines_original_shared_line :
    (∀ f ∈ ([⟨"/lib", "using A; y"⟩] : List Fragment), ∃ s, Header.split f.text = .ok s) ∧
    ∃ d, merge true ⟨"/main", "x"⟩ [⟨"/lib", "using A; y"⟩] = .ok d ∧
      (4 < d.lines.length ∧ 4 ∉ d.markers) ∧
      (∃ (p : Piece) (j : Nat) (line original : Text), d.lines[4]? = some line ∧
        d.ranges.trace 4 = some (p.fragment.path, ((j + p.offset : Nat) : Int)) ∧
        p.fragment.lines[j + p.offset]? = some original ∧ p.TakesOver j line original) ∧
      d.ranges.trace 3 = none ∧ d.ranges.trace 5 = none := by
  have headers : ∀ f ∈ ([⟨"/lib", "using A; y"⟩] : List Fragment),
      ∃ s, Header.split f.text = .ok s := by
    intro f hf
    rw [List.mem_singleton] at hf
    subst hf
    exact ⟨⟨"using A;", "y", 0, ["using A;"]⟩, rfl⟩
  obtain ⟨imports, d, -, -, hmerge, hinside, houtside⟩ :=
    merged_lines_original true ⟨"/main", "x"⟩ [⟨"/lib", "using A; y"⟩] headers
  have hdocument : merge true ⟨"/main", "x"⟩ [⟨"/lib", "using A; y"⟩] =
      .ok ⟨["using A;", "#line 1 \"/main\"", "x", "#line 1 \"/lib\"", "y"], [1, 3],
        ⟨[⟨0, 1, "/lib", 0⟩, ⟨2, 3, "/main", 0⟩, ⟨4, 5, "/lib", 0⟩], [0, 2, 4]⟩⟩ := rfl
  obtain rfl := Except.ok.inj (hmerge.symm.trans hdocument)
  obtain ⟨p, j, line, original, -, -, hline, -, htrace, horiginal, htakes⟩ :=
    hinside 4 (by decide) (by decide)
  exact ⟨headers, _, hmerge, by decide, ⟨p, j, line, original, hline, htrace, horiginal, htakes⟩,
    houtside 3 (Or.inr (Or.inr ⟨3, by decide, rfl⟩)), houtside 5 (Or.inr (Or.inl (by decide)))⟩

end ScriptWeave
