import ScriptWeave.Proofs.Markers
import ScriptWeave.Proofs.Workspace

/-!
Positions that are reported under the bare name of a fragment. The name stands for the first
fragment that has it, so that a position in any later fragment of the same name is given to the
wrong one; the line and the column stay. A name is never taken for that of the document unless the
document's path is itself a bare name.
-/

namespace ScriptWeave

namespace Path

theorem name_eq_nil_or_mem_names (t : Text) : (ofText t).name = [] ∨ (ofText t).name ∈ namesOf t := by
  rw [name, ofText]
  cases hlast : (namesOf t).getLast? with
  | none => exact .inl rfl
  | some last => exact .inr (List.mem_of_getLast? hlast)

theorem normal_singleton (name : Text) : normal ⟨.relative, [name]⟩ = ⟨.relative, [name]⟩ := by
  by_cases hup : name = "..".toList <;> simp [normal, collapse, isAbsolute, hup]

theorem normal_ofText_name {t : Text} (h : (ofText t).name ≠ []) :
    (ofText (ofText t).name).normal = ⟨.relative, [(ofText t).name]⟩ := by
  have hname : FileTree.isMark (ofText t).name = false := by
    have hmem := (name_eq_nil_or_mem_names t).resolve_left h
    have hplain := (List.mem_filter.mp hmem).2
    simpa [FileTree.isMark] using hplain
  rw [ofText_of_no_slash (no_slash_name t), hname, if_neg Bool.false_ne_true, normal_singleton]

end Path

namespace Origin

variable {o : Origin} {path : Text}

theorem isInDocument_name_iff :
    o.isInDocument (Path.ofText path).name = true ↔
      (Path.ofText path).name = [] ∨
        (Path.ofText o.documentPath).normal = ⟨.relative, [(Path.ofText path).name]⟩ := by
  by_cases hname : (Path.ofText path).name = []
  · simp [isInDocument, hname]
  · simp [isInDocument, hname, Path.normal_ofText_name hname, eq_comm]

/-- No fragment in front of this one has its name. -/
def IsFirstOfName (o : Origin) (path : Text) : Prop :=
  ∀ other ∈ o.fragmentPaths.takeWhile (· ≠ path),
    (Path.ofText other).name ≠ (Path.ofText path).name

instance (o : Origin) (path : Text) : Decidable (o.IsFirstOfName path) :=
  inferInstanceAs (Decidable (∀ other ∈ _, _))

theorem takeWhile_of_first {front back : List Text} {first : Text}
    (hpaths : o.fragmentPaths = front ++ first :: back)
    (hfront : ∀ other ∈ front, (Path.ofText other).name ≠ (Path.ofText path).name) :
    o.fragmentPaths.takeWhile (· ≠ path) = front ++ (first :: back).takeWhile (· ≠ path) := by
  rw [hpaths]
  refine List.takeWhile_append_of_pos fun other hother => ?_
  rw [decide_eq_true_eq]
  rintro rfl
  exact hfront other hother rfl

theorem exists_first (h : path ∈ o.fragmentPaths) :
    ∃ first ∈ o.fragmentPaths,
      (o.fragmentPaths.find? fun p => (Path.ofText p).name = (Path.ofText path).name) = some first ∧
      (Path.ofText first).name = (Path.ofText path).name ∧ o.IsFirstOfName first ∧
      (first = path ↔ o.IsFirstOfName path) := by
  cases hfound : o.fragmentPaths.find? fun p => (Path.ofText p).name = (Path.ofText path).name with
  | none =>
      have hnone := List.find?_eq_none.mp hfound path h
      simp at hnone
  | some first =>
      obtain ⟨hname, front, back, hpaths, hfront⟩ := List.find?_eq_some_iff_append.mp hfound
      simp only [Bool.not_eq_true', decide_eq_false_iff_not, decide_eq_true_eq] at hname hfront
      have hfirst : o.IsFirstOfName first := by
        rw [IsFirstOfName, takeWhile_of_first hpaths (hname ▸ hfront), hname]
        simpa using hfront
      refine ⟨first, by simp [hpaths], rfl, hname, hfirst, ?_⟩
      constructor
      · rintro rfl
        exact hfirst
      · intro hpath
        by_contra hne
        refine hpath first ?_ hname
        rw [takeWhile_of_first hpaths hfront]
        simp [hne]

/-- Whatever is reported under the bare name of the fragment, it is not given to another one. -/
def IsAttributed (o : Origin) (path : Text) : Prop :=
  ∀ (line : Int) (column : Option Int), ∀ other ∈ o.fragmentPaths, other ≠ path →
    (o.traceSpan ⟨some (Path.ofText path).name, some line, column⟩).file ≠ some other

/-- The name of a fragment that is not also the document's is given to the first fragment of that
name, with the line and the column as they are. -/
theorem exists_traceSpan_name (h : path ∈ o.fragmentPaths)
    (houtside : o.isInDocument (Path.ofText path).name = false) :
    ∃ first ∈ o.fragmentPaths, (Path.ofText first).name = (Path.ofText path).name ∧
      o.IsFirstOfName first ∧ (first = path ↔ o.IsFirstOfName path) ∧
      ∀ (line : Int) (column : Option Int),
        o.traceSpan ⟨some (Path.ofText path).name, some line, column⟩ =
          ⟨some first, some line, column⟩ := by
  obtain ⟨first, hmem, hfound, hname, hfirst, hpath⟩ := exists_first h
  have hbare : ¬ ((Path.ofText path).name = [] ∨ '/' ∈ (Path.ofText path).name) := by
    rintro (hnil | hslash)
    · rw [hnil, isInDocument_nil] at houtside
      cases houtside
    · exact Path.no_slash_name path hslash
  have hexpand : o.expandName (Path.ofText path).name = first := by
    rw [expandName, if_neg hbare, hfound, Option.getD_some]
  refine ⟨first, hmem, hname, hfirst, hpath, fun line column => ?_⟩
  rw [traceSpan_of_outside rfl houtside]
  exact congrArg (fun file => Span.mk (some file) (some line) column) hexpand

theorem isAttributed_outside_iff (h : path ∈ o.fragmentPaths)
    (houtside : o.isInDocument (Path.ofText path).name = false) :
    o.IsAttributed path ↔ o.IsFirstOfName path := by
  obtain ⟨first, hmem, -, -, hpath, htraced⟩ := exists_traceSpan_name h houtside
  rw [← hpath]
  constructor
  · intro hattributed
    by_contra hne
    exact hattributed 1 none first hmem hne (by rw [htraced])
  · rintro rfl line column other - hne hfile
    rw [htraced] at hfile
    exact hne (Option.some.inj hfile).symm

theorem isAttributed_inside_iff
    (absolute : ∀ p ∈ o.fragmentPaths, (Path.ofText p).isAbsolute = true)
    (hinside : o.isInDocument (Path.ofText path).name = true) :
    o.IsAttributed path ↔
      ∀ line other source, o.ranges.trace line = some (other, source) →
        other ∈ o.fragmentPaths → other = path := by
  constructor
  · intro hattributed line other source htrace hother
    by_contra hne
    refine hattributed (line + 1) none other hother hne ?_
    rw [traceSpan_of_isInDocument rfl hinside (by rwa [Int.add_sub_cancel])]
  · intro howner line column other hother hne hfile
    cases htrace : o.ranges.trace (line - 1) with
    | none =>
        have hslash := slash_mem_of_isAbsolute (absolute other hother)
        rw [traceSpan_of_unowned rfl hinside htrace] at hfile
        have hname : (Path.ofText path).name = other := Option.some.inj hfile
        exact Path.no_slash_name path (hname ▸ hslash)
    | some found =>
        obtain ⟨file, source⟩ := found
        rw [traceSpan_of_isInDocument rfl hinside htrace] at hfile
        obtain rfl := Option.some.inj hfile
        exact hne (howner (line - 1) file source htrace hother)

/-- The bare name of a fragment is never given to another fragment exactly if no fragment in front of
it has the name. The line and the column stay in any case. Only a document whose own path is this
name, and a path without a name, are read as positions in the document. -/
theorem attributed_iff_first (h : path ∈ o.fragmentPaths)
    (absolute : ∀ p ∈ o.fragmentPaths, (Path.ofText p).isAbsolute = true) :
    (o.isInDocument (Path.ofText path).name = true ↔
      (Path.ofText path).name = [] ∨
        (Path.ofText o.documentPath).normal = ⟨.relative, [(Path.ofText path).name]⟩) ∧
    (o.isInDocument (Path.ofText path).name = true →
      (o.IsAttributed path ↔ ∀ line other source, o.ranges.trace line = some (other, source) →
        other ∈ o.fragmentPaths → other = path)) ∧
    (o.isInDocument (Path.ofText path).name = false →
      (o.IsAttributed path ↔ o.IsFirstOfName path) ∧
      ∃ first ∈ o.fragmentPaths, (Path.ofText first).name = (Path.ofText path).name ∧
        o.IsFirstOfName first ∧
        ∀ (line : Int) (column : Option Int),
          o.traceSpan ⟨some (Path.ofText path).name, some line, column⟩ =
            ⟨some first, some line, column⟩) := by
  refine ⟨isInDocument_name_iff, isAttributed_inside_iff absolute, fun houtside => ?_⟩
  obtain ⟨first, hmem, hname, hfirst, -, htraced⟩ := exists_traceSpan_name h houtside
  exact ⟨isAttributed_outside_iff h houtside, first, hmem, hname, hfirst, htraced⟩

/-- Three fragments, two of which have the same name. -/
def sharedName : Origin where
  ranges := {}
  documentPath := "/tmp/x.cs"
  fragmentPaths := ["/a/x.cs", "/b/x.cs", "/b/y.cs"]

theorem attributed_iff_first_shared_name :
    ("/b/x.cs".toList ∈ sharedName.fragmentPaths ∧
      ∀ p ∈ sharedName.fragmentPaths, (Path.ofText p).isAbsolute = true) ∧
    ¬ sharedName.IsAttributed "/b/x.cs" ∧ sharedName.IsAttributed "/b/y.cs" ∧
    sharedName.traceSpan ⟨some "x.cs".toList, some 5, none⟩ =
      ⟨some "/a/x.cs".toList, some 5, none⟩ := by
  have absolute : ∀ p ∈ sharedName.fragmentPaths, (Path.ofText p).isAbsolute = true := by decide
  obtain ⟨-, -, hsecond⟩ := @attributed_iff_first sharedName "/b/x.cs" (by decide) absolute
  obtain ⟨-, -, hlast⟩ := @attributed_iff_first sharedName "/b/y.cs" (by decide) absolute
  refine ⟨⟨by decide, absolute⟩, ?_, ?_, rfl⟩
  · rw [(hsecond (by decide)).1]
    decide
  · rw [(hlast (by decide)).1]
    decide

end Origin

end ScriptWeave
