import ScriptWeave.Proofs.Pieces

/-!
Merging with and without hoisting. What stands in front of a document shifts it and changes nothing
else: its lines follow, its markers and entries move down by the height of what is in front, and
every line is traced to where it was traced before. Hoisting puts the headers of the imports in
front.
-/

namespace ScriptWeave

namespace Addition

theorem markersFrom_add (start height : Nat) (as : List Addition) :
    markersFrom (start + height) as = (markersFrom start as).map (· + height) := by
  induction as generalizing start with
  | nil => rfl
  | cons a as ih =>
      have hnext : start + height + a.lines.length = start + a.lines.length + height := by omega
      have hhere : a.markersAt (start + height) = (a.markersAt start).map (· + height) := by
        cases a <;> rfl
      rw [markersFrom, markersFrom, hnext, ih, hhere, List.map_append]

end Addition

namespace Document

open Addition

variable (as bs : List Addition)

theorem lines_ofAdditions_append :
    (ofAdditions (as ++ bs)).lines = allLines as ++ (ofAdditions bs).lines :=
  allLines_append as bs

theorem markers_ofAdditions_append :
    (ofAdditions (as ++ bs)).markers =
      (ofAdditions as).markers ++ (ofAdditions bs).markers.map (· + (allLines as).length) := by
  have hbehind := markersFrom_add 0 (allLines as).length bs
  change markersFrom 0 (as ++ bs) = markersFrom 0 as ++ (markersFrom 0 bs).map _
  rw [markersFrom_append, hbehind]

theorem trace_ofAdditions_append {line : Int} (h : 0 ≤ line) :
    (ofAdditions (as ++ bs)).ranges.trace (line + (allLines as).length) =
      (ofAdditions bs).ranges.trace line := by
  obtain ⟨i, rfl⟩ := Int.eq_ofNat_of_zero_le h
  have hbehind : (allOrigins as).length ≤ i + (allLines as).length := by
    rw [length_allOrigins]
    omega
  rw [← Int.natCast_add, trace_ofAdditions, trace_ofAdditions, allOrigins_append,
    List.getElem?_append_right hbehind, length_allOrigins, Nat.add_sub_cancel]

end Document

/-- The lines that hoisting puts on top, import by import. -/
def hoistedLines (imports : List Import) : List Text :=
  imports.flatMap fun i => i.split.headerLines

theorem allLines_headerAdditions (imports : List Import) :
    Addition.allLines (imports.map Import.headerAddition) = hoistedLines imports := by
  rw [Addition.allLines, List.flatMap_map, hoistedLines]
  rfl

theorem markersFrom_headerAdditions (start : Nat) (imports : List Import) :
    Addition.markersFrom start (imports.map Import.headerAddition) = [] := by
  induction imports generalizing start with
  | nil => rfl
  | cons i imports ih => exact ih _

theorem mergeAdditions_hoisted (primary : Fragment) (imports : List Import) :
    mergeAdditions true primary imports =
      imports.map Import.headerAddition ++ mergeAdditions false primary imports := by
  simp [mergeAdditions]

/-- Hoisting puts the header lines in front and shifts all that a merge without it gives. -/
theorem merge_hoisted (primary : Fragment) (imported : List Fragment)
    (headers : ∀ f ∈ imported, ∃ s, Header.split f.text = .ok s) :
    ∃ imports hoisted plain,
      Import.ofFragments imported = .ok imports ∧ imports.map Import.fragment = imported ∧
      (∀ i ∈ imports, Header.split i.fragment.text = .ok i.split) ∧
      merge true primary imported = .ok hoisted ∧ merge false primary imported = .ok plain ∧
      hoisted.lines = hoistedLines imports ++ plain.lines ∧
      hoisted.markers = plain.markers.map (· + (hoistedLines imports).length) ∧
      ∀ line : Int, 0 ≤ line →
        hoisted.ranges.trace (line + (hoistedLines imports).length) = plain.ranges.trace line := by
  obtain ⟨imports, hread, hfragments, hsplits⟩ := exists_imports headers
  have hlines := allLines_headerAdditions imports
  refine ⟨imports, _, _, hread, hfragments, hsplits, merge_eq hread true primary,
    merge_eq hread false primary, ?_⟩
  rw [← mergeAdditions_eq, ← mergeAdditions_eq, mergeAdditions_hoisted, ← hlines]
  refine ⟨Document.lines_ofAdditions_append _ _, ?_, ?_⟩
  · have hnone : (Document.ofAdditions (imports.map Import.headerAddition)).markers = [] :=
      markersFrom_headerAdditions 0 imports
    rw [Document.markers_ofAdditions_append, hnone, List.nil_append]
  · intro line hline
    exact Document.trace_ofAdditions_append _ _ hline

/-- An import that is all header, and one whose code starts on the line of its declaration. -/
theorem merge_hoisted_two_imports :
    (∀ f ∈ ([⟨"/a", "using A;\nusing B;\n"⟩, ⟨"/b", "using C; y"⟩] : List Fragment),
      ∃ s, Header.split f.text = .ok s) ∧
    ∃ hoisted plain,
      merge true ⟨"/main", "x"⟩ [⟨"/a", "using A;\nusing B;\n"⟩, ⟨"/b", "using C; y"⟩] =
        .ok hoisted ∧
      merge false ⟨"/main", "x"⟩ [⟨"/a", "using A;\nusing B;\n"⟩, ⟨"/b", "using C; y"⟩] =
        .ok plain ∧
      hoisted.lines = ["using A;".toList, "using B;".toList, "using C;".toList] ++ plain.lines ∧
      hoisted.markers = plain.markers.map (· + 3) ∧
      hoisted.ranges.trace (4 + 3) = plain.ranges.trace 4 := by
  have headers : ∀ f ∈ ([⟨"/a", "using A;\nusing B;\n"⟩, ⟨"/b", "using C; y"⟩] : List Fragment),
      ∃ s, Header.split f.text = .ok s := by
    rw [List.forall_mem_cons, List.forall_mem_singleton]
    exact ⟨⟨⟨"using A;\nusing B;", [], 2, ["using A;", "using B;"]⟩, rfl⟩,
      ⟨⟨"using C;", "y", 0, ["using C;"]⟩, rfl⟩⟩
  obtain ⟨imports, hoisted, plain, hread, -, -, hhoisted, hplain, hlines, hmarkers, htrace⟩ :=
    merge_hoisted ⟨"/main", "x"⟩ _ headers
  have himports : Import.ofFragments [⟨"/a", "using A;\nusing B;\n"⟩, ⟨"/b", "using C; y"⟩] =
      .ok [⟨⟨"/a", "using A;\nusing B;\n"⟩,
          ⟨"using A;\nusing B;", [], 2, ["using A;", "using B;"]⟩⟩,
        ⟨⟨"/b", "using C; y"⟩, ⟨"using C;", "y", 0, ["using C;"]⟩⟩] := rfl
  obtain rfl := Except.ok.inj (hread.symm.trans himports)
  exact ⟨headers, hoisted, plain, hhoisted, hplain, hlines, hmarkers, htrace 4 (by decide)⟩

end ScriptWeave
