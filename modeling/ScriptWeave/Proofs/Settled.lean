import Mathlib.Data.List.Forall2
import ScriptWeave.Proofs.Markers

/-!
Positions that tracing leaves as they are: those without a line, those in the document that no
fragment has given, and those that name another file in full or by a name that no fragment has.
Tracing leads to such a position, whatever it starts from, and so there is nothing left to do for a
second time.
-/

namespace ScriptWeave

theorem RangeMap.file_of_trace {m : RangeMap} {line source : Int} {file : Text}
    (h : m.trace line = some (file, source)) : file ∈ m.entries.map (·.file) := by
  obtain ⟨e, hlookup, htrace⟩ := Option.map_eq_some_iff.mp h
  have hmem : e ∈ m.entries := by
    rw [lookup] at hlookup
    split at hlookup
    · simp at hlookup
    · exact List.mem_of_getElem? (Option.filter_eq_some_iff.mp hlookup).1
  obtain ⟨rfl, -⟩ := Prod.mk.inj htrace
  exact List.mem_map_of_mem hmem

namespace Origin

variable {o : Origin} {s : Span}

/-- The paths that a position can be traced to. -/
def sources (o : Origin) : List Text := o.ranges.entries.map (·.file) ++ o.fragmentPaths

inductive Settled (o : Origin) (s : Span) : Prop
  | unanchored (line : s.line = none)
  | unowned {line : Int} (anchored : s.line = some line)
      (inside : o.isInDocument s.fileName = true) (unowned : o.ranges.trace (line - 1) = none)
  | elsewhere (outside : o.isInDocument s.fileName = false)
      (named : '/' ∈ s.fileName ∨ ∀ path ∈ o.fragmentPaths, (Path.ofText path).name ≠ s.fileName)

theorem expandName_of_unknown {file : Text}
    (h : ∀ path ∈ o.fragmentPaths, (Path.ofText path).name ≠ file) : o.expandName file = file := by
  have hnone : (o.fragmentPaths.find? fun path => (Path.ofText path).name = file) = none := by
    rw [List.find?_eq_none]
    intro path hpath
    simpa using h path hpath
  rw [expandName, hnone, Option.getD_none, ite_self]

theorem expandName_cases (o : Origin) (file : Text) :
    (o.expandName file = file ∧
        (file = [] ∨ '/' ∈ file ∨ ∀ path ∈ o.fragmentPaths, (Path.ofText path).name ≠ file)) ∨
      o.expandName file ∈ o.fragmentPaths := by
  by_cases hbare : file = [] ∨ '/' ∈ file
  · refine .inl ⟨by rw [expandName, if_pos hbare], ?_⟩
    exact hbare.imp_right .inl
  · cases hfound : o.fragmentPaths.find? fun path => (Path.ofText path).name = file with
    | some path =>
        rw [expandName, if_neg hbare, hfound]
        exact .inr (List.mem_of_find?_eq_some hfound)
    | none =>
        have hunknown : ∀ path ∈ o.fragmentPaths, (Path.ofText path).name ≠ file := by
          simpa using List.find?_eq_none.mp hfound
        exact .inl ⟨expandName_of_unknown hunknown, .inr (.inr hunknown)⟩

theorem file_of_outside (h : o.isInDocument s.fileName = false) : s.file = some s.fileName := by
  cases hfile : s.file with
  | none => simp [Span.fileName, hfile, isInDocument_nil] at h
  | some file => simp [Span.fileName, hfile]

theorem Settled.traceSpan (h : o.Settled s) : o.traceSpan s = s := by
  cases h with
  | unanchored hline => simp [Origin.traceSpan, hline]
  | unowned hline hinside htrace => exact traceSpan_of_unowned hline hinside htrace
  | elsewhere houtside hnamed =>
      cases hline : s.line with
      | none => simp [Origin.traceSpan, hline]
      | some line =>
          have hexpand : o.expandName s.fileName = s.fileName := by
            rcases hnamed with hslash | hunknown
            · exact expandName_of_slash hslash
            · exact expandName_of_unknown hunknown
          rw [traceSpan_of_outside hline houtside, hexpand, ← file_of_outside houtside]

/-- Every path that a position can be traced to is absolute, and none is that of the document. -/
structure IsApart (o : Origin) : Prop where
  absolute : ∀ path ∈ o.sources, (Path.ofText path).isAbsolute = true
  apart : ∀ path ∈ o.sources, (Path.ofText path).normal ≠ (Path.ofText o.documentPath).normal

theorem IsApart.settled {path : Text} (h : o.IsApart) (hpath : path ∈ o.sources)
    (hfile : s.file = some path) : o.Settled s := by
  have hslash := slash_mem_of_isAbsolute (h.absolute path hpath)
  have hname : s.fileName = path := by rw [Span.fileName, hfile, Option.getD_some]
  refine .elsewhere ?_ (.inl (hname ▸ hslash))
  rw [hname]
  exact isInDocument_of_apart (h.absolute path hpath) (h.apart path hpath)

theorem settled_traceSpan (h : o.IsApart) (s : Span) : o.Settled (o.traceSpan s) := by
  cases hline : s.line with
  | none =>
      rw [Origin.traceSpan, hline]
      exact .unanchored hline
  | some line =>
      cases hinside : o.isInDocument s.fileName with
      | true =>
          cases htrace : o.ranges.trace (line - 1) with
          | none =>
              rw [traceSpan_of_unowned hline hinside htrace]
              exact .unowned hline hinside htrace
          | some found =>
              obtain ⟨file, source⟩ := found
              have hsource : file ∈ o.sources :=
                List.mem_append_left _ (RangeMap.file_of_trace htrace)
              rw [traceSpan_of_isInDocument hline hinside htrace]
              exact h.settled hsource rfl
      | false =>
          rw [traceSpan_of_outside hline hinside]
          rcases expandName_cases o s.fileName with ⟨hsame, hway⟩ | hfragment
          · have hname : (some (o.expandName s.fileName)).getD [] = s.fileName := hsame
            refine .elsewhere (by rwa [Span.fileName, hname]) ?_
            rw [Span.fileName, hname]
            rcases hway with hnil | hway
            · rw [hnil, isInDocument_nil] at hinside
              cases hinside
            · exact hway
          · exact h.settled (List.mem_append_right _ hfragment) rfl

theorem traceSpan_eq_self_iff (h : o.IsApart) : o.traceSpan s = s ↔ o.Settled s :=
  ⟨fun hsame => hsame ▸ settled_traceSpan h s, Settled.traceSpan⟩

theorem exists_traceSpan_eq (o : Origin) (s : Span) :
    ∃ file line, o.traceSpan s = ⟨file, line, s.column⟩ := by
  rw [Origin.traceSpan]
  split
  · exact ⟨s.file, s.line, rfl⟩
  · split
    · split
      · exact ⟨s.file, s.line, rfl⟩
      · exact ⟨_, _, rfl⟩
    · exact ⟨_, _, rfl⟩

/-- A second pass over diagnostics changes nothing, and the first changes those that are not settled,
no part of them but the file and the line. -/
theorem trace_settles (h : o.IsApart) (ds : List Diagnostic) :
    (ds.map o.trace).map o.trace = ds.map o.trace ∧
      List.Forall₂
        (fun d d' => (∃ file line, d' = { d with span := ⟨file, line, d.span.column⟩ }) ∧
          o.Settled d'.span ∧ (d' = d ↔ o.Settled d.span))
        ds (ds.map o.trace) := by
  constructor
  · rw [List.map_map]
    refine List.map_congr_left fun d _ => ?_
    have hsettled := (settled_traceSpan h d.span).traceSpan
    simp only [Function.comp_apply, Origin.trace, hsettled]
  · rw [List.forall₂_map_right_iff, List.forall₂_same]
    intro d _
    obtain ⟨file, line, hspan⟩ := exists_traceSpan_eq o d.span
    refine ⟨⟨file, line, by rw [Origin.trace, hspan]⟩, settled_traceSpan h d.span, ?_⟩
    rw [← traceSpan_eq_self_iff h]
    constructor
    · exact fun hsame => congrArg Diagnostic.span hsame
    · intro hsame
      rw [Origin.trace, hsame]

/-- Two fragments, the first of which has the name of the document. -/
def twoFragments : Origin where
  ranges := RangeMap.ofCalls [⟨1, 3, "/src/a.cs", 0⟩, ⟨4, 6, "/src/b.cs", 2⟩]
  documentPath := "/tmp/a.cs"
  fragmentPaths := ["/src/a.cs", "/src/b.cs"]

/-- A line of a fragment, the line of a marker, the bare name of a fragment, and an unknown name. -/
theorem trace_settles_four_ways :
    twoFragments.IsApart ∧
    ∃ traced,
      ([⟨"m", none, .error, ⟨none, some 6, some 1⟩, false, []⟩,
        ⟨"m", none, .error, ⟨some "/tmp/./a.cs".toList, some 4, none⟩, false, []⟩,
        ⟨"m", none, .error, ⟨some "b.cs".toList, some 9, none⟩, false, []⟩,
        ⟨"m", none, .error, ⟨some "c.cs".toList, some (-1), none⟩, false, []⟩] :
          List Diagnostic).map twoFragments.trace = traced ∧
      traced.map (·.span) = [⟨some "/src/b.cs".toList, some 4, some 1⟩,
        ⟨some "/tmp/./a.cs".toList, some 4, none⟩, ⟨some "/src/b.cs".toList, some 9, none⟩,
        ⟨some "c.cs".toList, some (-1), none⟩] ∧
      traced.map twoFragments.trace = traced := by
  have hpaths : twoFragments.IsApart := ⟨by decide, by decide +kernel⟩
  refine ⟨hpaths, _, rfl, ?_, ?_⟩
  · decide
  · exact (trace_settles hpaths _).1

end Origin

end ScriptWeave
