import ScriptWeave.Proofs.Header.Breaks.Split
import ScriptWeave.Proofs.Pieces

namespace ScriptWeave

open Text Header

/-- The fragment with every line break written as one line feed. -/
def Fragment.normalized (f : Fragment) : Fragment := { f with text := normalizeBreaks f.text }

/-- The two imports add the same lines to a document. -/
structure Import.Alike (i i' : Import) : Prop where
  header : i.headerAddition = i'.headerAddition
  body : i.bodyAdditions = i'.bodyAdditions

theorem Import.alike_of_split {f f' : Fragment} {s s' : Split} (hpath : f.path = f'.path)
    (h : s.Alike s') : Import.Alike ⟨f, s⟩ ⟨f', s'⟩ := by
  obtain ⟨hheader, hbody, hcount, -⟩ := h
  constructor
  · simp only [headerAddition, hpath, hheader]
  · simp only [bodyAdditions, hpath, hbody, hcount]

theorem ofFragments_normalized {imported : List Fragment}
    (h : ∀ f ∈ imported, ¬ MeetsEmptyUsing f.text) :
    (∃ fault fault', Import.ofFragments imported = .error fault ∧
        Import.ofFragments (imported.map Fragment.normalized) = .error fault' ∧
        fault.path = fault'.path) ∨
      ∃ imports imports', Import.ofFragments imported = .ok imports ∧
        Import.ofFragments (imported.map Fragment.normalized) = .ok imports' ∧
        List.Forall₂ Import.Alike imports imports' := by
  induction imported with
  | nil => exact .inr ⟨[], [], rfl, rfl, .nil⟩
  | cons f fs ih =>
      obtain ⟨hf, hfs⟩ := List.forall_mem_cons.mp h
      have halike := splitAlike_normalizeBreaks hf
      rw [SplitAlike] at halike
      simp only [List.map_cons, Import.ofFragments, Import.ofFragment, Fragment.normalized]
      cases hsplit : split f.text with
      | error fault =>
          cases hsplit' : split (normalizeBreaks f.text) with
          | error fault' => exact .inl ⟨_, _, rfl, rfl, rfl⟩
          | ok s' => simp [hsplit, hsplit'] at halike
      | ok s =>
          cases hsplit' : split (normalizeBreaks f.text) with
          | error fault' => simp [hsplit, hsplit'] at halike
          | ok s' =>
              simp only [hsplit, hsplit'] at halike
              rcases ih hfs with ⟨fault, fault', hread, hread', hpath⟩ |
                  ⟨imports, imports', hread, hread', hall⟩
              · refine .inl ⟨fault, fault', ?_, ?_, hpath⟩
                · simp [hread, Except.map]
                · simp [hread', Except.map]
              · refine .inr ⟨⟨f, s⟩ :: imports, ⟨f.normalized, s'⟩ :: imports', ?_, ?_, ?_⟩
                · simp [hread, Except.map]
                · simp [hread', Except.map, Fragment.normalized]
                · exact .cons (Import.alike_of_split rfl halike) hall

theorem mergeAdditions_alike {imports imports' : List Import}
    (h : List.Forall₂ Import.Alike imports imports') (hoist : Bool) (primary : Fragment) :
    mergeAdditions hoist primary imports = mergeAdditions hoist primary.normalized imports' := by
  have hsame : imports.map Import.headerAddition = imports'.map Import.headerAddition ∧
      imports.flatMap Import.bodyAdditions = imports'.flatMap Import.bodyAdditions := by
    induction h with
    | nil => exact ⟨rfl, rfl⟩
    | cons halike _ ih =>
        rw [List.map_cons, List.map_cons, List.flatMap_cons, List.flatMap_cons, halike.header,
          halike.body, ih.1, ih.2]
        exact ⟨rfl, rfl⟩
  have hlines : primary.normalized.lines = primary.lines := splitLines_normalizeBreaks primary.text
  rw [mergeAdditions, mergeAdditions, hsame.1, hsame.2, hlines, Fragment.normalized]

/-- Both merges refuse the same source, or they give the same document. -/
def MergeAlike (merged merged' : Except MergeFault Document) : Prop :=
  match merged, merged' with
  | .error (.source fault), .error (.source fault') => fault.path = fault'.path
  | .ok d, .ok d' => d.lines = d'.lines ∧ d.markers = d'.markers ∧ d.ranges = d'.ranges
  | _, _ => False

/-- How line breaks are written makes no difference, but for a `using` without a name. -/
theorem break_style_irrelevant (hoist : Bool) (primary : Fragment) (imported : List Fragment)
    (h : ∀ f ∈ imported, ¬ MeetsEmptyUsing f.text) :
    (∀ t, SplitAlike t (normalizeBreaks t) ↔ ¬ MeetsEmptyUsing t) ∧
      MergeAlike (merge hoist primary imported)
        (merge hoist primary.normalized (imported.map Fragment.normalized)) := by
  refine ⟨fun t => splitAlike_normalizeBreaks_iff, ?_⟩
  rcases ofFragments_normalized h with ⟨fault, fault', hread, hread', hpath⟩ |
      ⟨imports, imports', hread, hread', hall⟩
  · simpa only [merge, hread, hread', MergeAlike] using hpath
  · rw [merge_eq hread, merge_eq hread', ← mergeAdditions_eq, ← mergeAdditions_eq,
      mergeAdditions_alike hall]
    exact ⟨rfl, rfl, rfl⟩

theorem break_style_irrelevant_two_styles :
    (∀ f ∈ ([⟨"/lib", "using A;\r\nx\r"⟩] : List Fragment), ¬ MeetsEmptyUsing f.text) ∧
      MergeAlike (merge true ⟨"/main", "y\r\nz"⟩ [⟨"/lib", "using A;\r\nx\r"⟩])
        (merge true ⟨"/main", "y\nz"⟩ [⟨"/lib", "using A;\nx\n"⟩]) := by
  have halike : SplitAlike "using A;\r\nx\r" (normalizeBreaks "using A;\r\nx\r") := by
    have hsplit : split "using A;\r\nx\r" = .ok ⟨"using A;", "x\r", 1, ["using A;"]⟩ :=
      rfl
    have hsplit' : split (normalizeBreaks "using A;\r\nx\r") =
        .ok ⟨"using A;", "x\n", 1, ["using A;"]⟩ := rfl
    rw [SplitAlike, hsplit, hsplit']
    exact ⟨rfl, rfl, rfl, rfl⟩
  have hnone : ∀ f ∈ ([⟨"/lib", "using A;\r\nx\r"⟩] : List Fragment), ¬ MeetsEmptyUsing f.text :=
    List.forall_mem_singleton.mpr (splitAlike_normalizeBreaks_iff.mp halike)
  have hmerge := (break_style_irrelevant true ⟨"/main", "y\r\nz"⟩ _ hnone).2
  have hprimary : Fragment.normalized ⟨"/main", "y\r\nz"⟩ = ⟨"/main", "y\nz"⟩ := rfl
  have himported : ([⟨"/lib", "using A;\r\nx\r"⟩] : List Fragment).map Fragment.normalized =
      [⟨"/lib", "using A;\nx\n"⟩] := rfl
  rw [hprimary, himported] at hmerge
  exact ⟨hnone, hmerge⟩

end ScriptWeave
