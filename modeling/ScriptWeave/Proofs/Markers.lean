import ScriptWeave.Origin
import ScriptWeave.Proofs.Numeral
import ScriptWeave.Proofs.Originals

namespace ScriptWeave

open Text

def readMarker? (line : Text) : Option (Text × Int) := do
  let rest ← afterPrefix? "#line " line
  let (digits, rest) ← readDigits? rest
  let rest ← afterPrefix? " \"" rest
  if rest.getLast? = some '"' then some (rest.dropLast, decimalValue digits) else none

theorem lineMarker_eq (n : Nat) (path : Text) :
    lineMarker n path = "#line ".toList ++ (ofNat n ++ ' ' :: '"' :: (path ++ ['"'])) := by
  change "#line ".toList ++ ofNat n ++ " \"".toList ++ path ++ "\"".toList = _
  simp only [List.append_assoc]
  rfl

theorem readMarker?_lineMarker (n : Nat) (path : Text) :
    readMarker? (lineMarker n path) = some (path, (n : Int)) := by
  have hlead : afterPrefix? "#line " (lineMarker n path) =
      some (ofNat n ++ ' ' :: '"' :: (path ++ ['"'])) :=
    afterPrefix?_eq_some_iff.mpr (lineMarker_eq n path)
  have hquote : afterPrefix? " \"" (' ' :: '"' :: (path ++ ['"'])) = some (path ++ ['"']) := rfl
  have hspace : isDecimal ' ' = false := by decide
  simp only [readMarker?, hlead, Option.bind_eq_bind, Option.bind_some,
    readDigits?_ofNat_append n _ hspace, hquote]
  simp [decimalValue_ofNat]

namespace Document

/-- The file and line that a compiler reports for a line of the document if it honours the markers:
the line behind a marker is where the marker says, and every further line is one line on. -/
def reported (d : Document) : Nat → Option (Text × Int)
  | 0 => none
  | i + 1 =>
      if i ∈ d.markers then d.lines[i]?.bind readMarker?
      else (d.reported i).map fun (file, line) => (file, line + 1)

theorem reported_behind {d : Document} {m : Nat} (hm : m ∈ d.markers) (j : Nat)
    (hlast : ∀ k, m < k → k < m + 1 + j → k ∉ d.markers) :
    d.reported (m + 1 + j) =
      (d.lines[m]?.bind readMarker?).map fun (file, line) => (file, line + j) := by
  induction j with
  | zero =>
      rw [Nat.add_zero, reported, if_pos hm]
      cases d.lines[m]?.bind readMarker? <;> simp
  | succ j ih =>
      have hcode : m + 1 + j ∉ d.markers := hlast (m + 1 + j) (by omega) (by omega)
      rw [← Nat.add_assoc, reported, if_neg hcode, ih fun k hk hlt => hlast k hk (by omega),
        Option.map_map]
      congr 1
      funext ⟨file, line⟩
      simp only [Function.comp_apply, Prod.mk.injEq, true_and]
      omega

end Document

theorem unmarked_origins {ps : List Piece} (h : ∀ p ∈ ps, p.isMarked = false) :
    none ∉ Addition.allOrigins (spread ps) := by
  induction ps with
  | nil => simp [spread, Addition.allOrigins]
  | cons p ps ih =>
      obtain ⟨hp, hps⟩ := List.forall_mem_cons.mp h
      rw [spread_cons, Addition.allOrigins_append, Piece.allOrigins_additions, List.mem_append]
      rintro (hhere | hlater)
      · simp [Piece.markers, hp, Piece.origins] at hhere
      · exact ih hps hlater

theorem not_mem_markers_in_front {unmarked marked : List Piece}
    (hunmarked : ∀ p ∈ unmarked, p.isMarked = false) (hmarked : ∀ p ∈ marked, p.isMarked = true)
    {p : Piece} {j i m : Nat} (h : StandsAt (unmarked ++ marked) p j i) (hp : p.isMarked = false)
    (hm : m < i) : m ∉ (Document.ofAdditions (spread (unmarked ++ marked))).markers := by
  obtain ⟨front, back, hps, rfl, hj⟩ := h
  have hheight : heightOf front + p.markers.length + j < heightOf unmarked := by
    rcases List.append_eq_append_iff.mp hps with ⟨c, rfl, hback⟩ | ⟨c, rfl, hback⟩
    · have hmem : p ∈ marked := by simp [hback]
      simp [hmarked p hmem] at hp
    · cases c with
      | nil =>
          have hmem : p ∈ marked := by
            rw [List.nil_append] at hback
            simp [← hback]
          simp [hmarked p hmem] at hp
      | cons q c =>
          obtain ⟨rfl, -⟩ := List.cons.inj hback
          rw [heightOf_append, heightOf, Piece.height]
          omega
  intro hmem
  obtain ⟨-, hnone⟩ := (Document.mem_markers_iff _ _).mp hmem
  have hlength : m < (Addition.allOrigins (spread unmarked)).length := by
    rw [Addition.length_allOrigins, length_allLines_spread]
    omega
  rw [Document.trace_ofAdditions, spread_append, Addition.allOrigins_append,
    List.getElem?_append_left hlength, List.getElem?_eq_getElem hlength] at hnone
  have horigin : (Addition.allOrigins (spread unmarked))[m] = none := by simpa using hnone
  exact unmarked_origins hunmarked (horigin ▸ List.getElem_mem hlength)

theorem StandsAt.not_mem_markers {ps : List Piece} {p : Piece} {j i : Nat}
    (h : StandsAt ps p j i) : i ∉ (Document.ofAdditions (spread ps)).markers := by
  intro hm
  have hnone := ((Document.mem_markers_iff _ _).mp hm).2
  rw [h.trace] at hnone
  simp at hnone

theorem MarkedAt.mem_markers {ps : List Piece} {p : Piece} {m : Nat} (h : MarkedAt ps p m) :
    m ∈ (Document.ofAdditions (spread ps)).markers := by
  have horigin := h.origin
  have hlength : m < (Addition.allOrigins (spread ps)).length :=
    (List.getElem?_eq_some_iff.mp horigin).1
  rw [Document.mem_markers_iff, Document.trace_ofAdditions, horigin]
  exact ⟨by rwa [Addition.length_allOrigins] at hlength, rfl⟩

/-- A line of a piece that has a marker is as far behind the marker as it is behind the start of
the piece, and no other marker lies between them. -/
theorem StandsAt.exists_markedAt {ps : List Piece} {p : Piece} {j i : Nat}
    (h : StandsAt ps p j i) (hp : p.isMarked = true) :
    ∃ m, MarkedAt ps p m ∧ i = m + 1 + j ∧
      ∀ k, m < k → k < m + 1 + j → k ∉ (Document.ofAdditions (spread ps)).markers := by
  obtain ⟨front, back, rfl, rfl, hj⟩ := h
  have hone : p.markers.length = 1 := by simp [Piece.markers, hp]
  refine ⟨heightOf front, ⟨front, back, rfl, rfl, hp⟩, by rw [hone], fun k hk hlt => ?_⟩
  have hstands : StandsAt (front ++ p :: back) p (k - (heightOf front + 1)) k :=
    ⟨front, back, rfl, by omega, by omega⟩
  exact hstands.not_mem_markers

namespace Origin

theorem isInDocument_nil (o : Origin) : o.isInDocument [] = true := rfl

theorem isInDocument_documentPath (o : Origin) : o.isInDocument o.documentPath = true := by
  simp [isInDocument]

theorem slash_mem_of_isAbsolute {path : Text} (h : (Path.ofText path).isAbsolute = true) :
    '/' ∈ path := by
  cases path with
  | nil => simp [Path.ofText, Path.isAbsolute, Path.anchorOf] at h
  | cons c path =>
      by_cases hc : c = '/'
      · simp [hc]
      · have hrelative : Path.anchorOf (c :: path) = .relative := by
          rw [Path.anchorOf.eq_def]
          split <;> simp_all
        simp [Path.ofText, Path.isAbsolute, hrelative] at h

section Spans

variable {o : Origin} {s : Span} {line : Int}

theorem traceSpan_of_isInDocument {source : Int} {path : Text}
    (hline : s.line = some line) (hfile : o.isInDocument s.fileName = true)
    (htrace : o.ranges.trace (line - 1) = some (path, source)) :
    o.traceSpan s = ⟨some path, some (source + 1), s.column⟩ := by
  simp [traceSpan, hline, hfile, htrace]

theorem traceSpan_of_unowned (hline : s.line = some line)
    (hfile : o.isInDocument s.fileName = true) (htrace : o.ranges.trace (line - 1) = none) :
    o.traceSpan s = s := by
  simp [traceSpan, hline, hfile, htrace]

theorem traceSpan_of_outside (hline : s.line = some line)
    (hfile : o.isInDocument s.fileName = false) :
    o.traceSpan s = { s with file := some (o.expandName s.fileName) } := by
  simp [traceSpan, hline, hfile]

theorem isInDocument_of_apart {path : Text} (absolute : (Path.ofText path).isAbsolute = true)
    (apart : (Path.ofText path).normal ≠ (Path.ofText o.documentPath).normal) :
    o.isInDocument path = false := by
  have hne : path ≠ [] := List.ne_nil_of_mem (slash_mem_of_isAbsolute absolute)
  simp [isInDocument, hne, apart]

theorem expandName_of_slash {file : Text} (h : '/' ∈ file) : o.expandName file = file := by
  rw [expandName, if_pos (Or.inr h)]

theorem traceSpan_of_absolute {path : Text} (hpath : s.file = some path)
    (habsolute : (Path.ofText path).isAbsolute = true)
    (hapart : (Path.ofText path).normal ≠ (Path.ofText o.documentPath).normal) :
    o.traceSpan s = s := by
  have hout := isInDocument_of_apart habsolute hapart
  have hexpand : o.expandName path = path := expandName_of_slash (slash_mem_of_isAbsolute habsolute)
  obtain ⟨file, line, column⟩ := s
  obtain rfl : file = some path := hpath
  cases line with
  | none => rfl
  | some line => simp [traceSpan, Span.fileName, hout, hexpand]

end Spans

end Origin

theorem not_mem_markers_of_unmarked {hoist : Bool} {primary : Fragment} {imports : List Import}
    {p : Piece} {j i m : Nat} (h : StandsAt (pieces hoist primary imports) p j i)
    (hp : p.isMarked = false) (hm : m < i) :
    m ∉ (Document.ofAdditions (spread (pieces hoist primary imports))).markers := by
  refine not_mem_markers_in_front ?_ ?_ h hp hm
  · intro q hq
    cases hoist with
    | false => simp at hq
    | true =>
        obtain ⟨k, -, rfl⟩ := List.mem_map.mp hq
        rfl
  · intro q hq
    rcases List.mem_cons.mp hq with rfl | hq
    · rfl
    · obtain ⟨k, -, rfl⟩ := List.mem_map.mp hq
      rfl

theorem traced_as_marked (hoist : Bool) (primary : Fragment) (imported : List Fragment)
    (documentPath : Text) (fragmentPaths : List Text)
    (headers : ∀ f ∈ imported, ∃ s, Header.split f.text = .ok s)
    (absolute : ∀ f ∈ primary :: imported, (Path.ofText f.path).isAbsolute = true)
    (apart : ∀ f ∈ primary :: imported,
      (Path.ofText f.path).normal ≠ (Path.ofText documentPath).normal) :
    ∃ d, merge hoist primary imported = .ok d ∧
      ∀ (i m : Nat) (column : Option Int), i < d.lines.length → i ∉ d.markers → m ∈ d.markers →
        m < i → (∀ k ∈ d.markers, k < i → k ≤ m) →
        ∃ line path, d.lines[m]? = some (lineMarker line path) ∧
          d.reported i = some (path, line + (i - m - 1)) ∧
          (∀ file, file = none ∨ file = some [] ∨ file = some documentPath →
            Origin.traceSpan ⟨d.ranges, documentPath, fragmentPaths⟩
                ⟨file, some (i + 1), column⟩ =
              ⟨some path, some (line + (i - m - 1)), column⟩) ∧
          Origin.traceSpan ⟨d.ranges, documentPath, fragmentPaths⟩
              ⟨some path, some (line + (i - m - 1)), column⟩ =
            ⟨some path, some (line + (i - m - 1)), column⟩ := by
  obtain ⟨imports, hread, rfl, hsplits⟩ := exists_imports headers
  refine ⟨_, merge_eq hread hoist primary, ?_⟩
  intro i m column hi hcode hm hlt hgreatest
  obtain ⟨p, j, hstands⟩ := exists_standsAt hi hcode
  have hmarked : p.isMarked = true := by
    cases hp : p.isMarked with
    | true => rfl
    | false => exact absurd hm (not_mem_markers_of_unmarked hstands hp hlt)
  obtain ⟨m', hmarker, rfl, hbetween⟩ := hstands.exists_markedAt hmarked
  -- the greatest marker above the line is the marker of the piece in which the line stands
  obtain rfl : m = m' := by
    have hle := hgreatest m' hmarker.mem_markers (by omega)
    by_contra hne
    exact hbetween m (by omega) hlt hm
  have hmem := fragment_of_mem_pieces hstands.mem
  have hline : ((p.offset + 1 : Nat) : Int) + (((m + 1 + j : Nat) : Int) - m - 1) =
      ((j + p.offset : Nat) : Int) + 1 := by omega
  refine ⟨((p.offset + 1 : Nat) : Int), p.fragment.path, hmarker.line, ?_, ?_, ?_⟩
  · have hcount : (((m + 1 + j : Nat) : Int) - m - 1) = j := by omega
    rw [Document.reported_behind hmarker.mem_markers j hbetween, hcount]
    have htext : (Document.ofAdditions (spread (pieces hoist primary imports))).lines[m]? =
        some (lineMarker ((p.offset + 1 : Nat) : Int) p.fragment.path) := hmarker.line
    rw [htext, Option.bind_some, readMarker?_lineMarker]
    rfl
  · intro file hfile
    rw [hline]
    refine Origin.traceSpan_of_isInDocument rfl ?_ ?_
    · rcases hfile with rfl | rfl | rfl
      · exact Origin.isInDocument_nil _
      · exact Origin.isInDocument_nil _
      · exact Origin.isInDocument_documentPath _
    · rw [Int.add_sub_cancel]
      exact hstands.trace
  · exact Origin.traceSpan_of_absolute rfl (absolute _ hmem) (apart _ hmem)

theorem traced_as_marked_shared_line :
    ((∀ f ∈ ([⟨"/lib", "using A; y"⟩] : List Fragment), ∃ s, Header.split f.text = .ok s) ∧
      (∀ f ∈ ([⟨"/main", "x"⟩, ⟨"/lib", "using A; y"⟩] : List Fragment),
        (Path.ofText f.path).isAbsolute = true) ∧
      ∀ f ∈ ([⟨"/main", "x"⟩, ⟨"/lib", "using A; y"⟩] : List Fragment),
        (Path.ofText f.path).normal ≠ (Path.ofText "/doc").normal) ∧
    ∃ d, merge true ⟨"/main", "x"⟩ [⟨"/lib", "using A; y"⟩] = .ok d ∧
      (4 < d.lines.length ∧ 4 ∉ d.markers ∧ 3 ∈ d.markers ∧ ∀ k ∈ d.markers, k < 4 → k ≤ 3) ∧
      ∃ line path, d.lines[3]? = some (lineMarker line path) ∧
        d.reported 4 = some (path, line) ∧
        Origin.traceSpan ⟨d.ranges, "/doc", []⟩ ⟨none, some 5, some 2⟩ =
          ⟨some path, some line, some 2⟩ := by
  have headers : ∀ f ∈ ([⟨"/lib", "using A; y"⟩] : List Fragment),
      ∃ s, Header.split f.text = .ok s := by
    intro f hf
    rw [List.mem_singleton] at hf
    subst hf
    exact ⟨⟨"using A;", "y", 0, ["using A;"]⟩, rfl⟩
  have absolute : ∀ f ∈ ([⟨"/main", "x"⟩, ⟨"/lib", "using A; y"⟩] : List Fragment),
      (Path.ofText f.path).isAbsolute = true := by decide
  have apart : ∀ f ∈ ([⟨"/main", "x"⟩, ⟨"/lib", "using A; y"⟩] : List Fragment),
      (Path.ofText f.path).normal ≠ (Path.ofText "/doc").normal := by decide
  obtain ⟨d, hmerge, htraced⟩ := traced_as_marked true ⟨"/main", "x"⟩ [⟨"/lib", "using A; y"⟩]
    "/doc" [] headers absolute apart
  have hdocument : merge true ⟨"/main", "x"⟩ [⟨"/lib", "using A; y"⟩] =
      .ok ⟨["using A;", "#line 1 \"/main\"", "x", "#line 1 \"/lib\"", "y"], [1, 3],
        ⟨[⟨0, 1, "/lib", 0⟩, ⟨2, 3, "/main", 0⟩, ⟨4, 5, "/lib", 0⟩], [0, 2, 4]⟩⟩ := rfl
  obtain rfl := Except.ok.inj (hmerge.symm.trans hdocument)
  obtain ⟨line, path, hmarker, hreported, htrace, -⟩ := htraced 4 3 (some 2) (by decide)
    (by decide) (by decide) (by decide) (by decide)
  refine ⟨⟨headers, absolute, apart⟩, _, hmerge, by decide, line, path, hmarker, ?_, ?_⟩
  · simpa using hreported
  · simpa using htrace none (Or.inl rfl)

end ScriptWeave
