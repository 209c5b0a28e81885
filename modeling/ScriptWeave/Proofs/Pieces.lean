import ScriptWeave.Merge
import ScriptWeave.Proofs.Header.Seam
import ScriptWeave.Proofs.Tracing

/-!
A merged document as a row of pieces: headers of imported fragments, the whole primary fragment,
bodies of imported fragments. Every line of the document is either the marker in front of a piece
or a line of a piece, and is traced to the fragment that the piece was taken from.
-/

namespace ScriptWeave

/-- A run of lines that a merge takes over from one fragment. -/
inductive Piece where
  | header (i : Import)
  | whole (f : Fragment)
  | body (i : Import)

namespace Piece

def fragment : Piece → Fragment
  | header i => i.fragment
  | whole f => f
  | body i => i.fragment

def lines : Piece → List Text
  | header i => i.split.headerLines
  | whole f => f.lines
  | body i => i.split.bodyLines

/-- The line of the fragment that the first line of the piece comes from. -/
def offset : Piece → Nat
  | header _ => 0
  | whole _ => 0
  | body i => i.split.lineCount

def isMarked : Piece → Bool
  | header _ => false
  | whole _ => true
  | body _ => true

def markers (p : Piece) : List Addition :=
  if p.isMarked then [.marker (p.offset + 1) p.fragment.path] else []

def additions (p : Piece) : List Addition :=
  p.markers ++ [.code p.fragment.path p.lines p.offset]

def height (p : Piece) : Nat := p.markers.length + p.lines.length

theorem allLines_additions (p : Piece) :
    Addition.allLines p.additions = Addition.allLines p.markers ++ p.lines := by
  simp [additions, Addition.allLines, Addition.lines]

def origins (p : Piece) : List (Option (Text × Int)) :=
  (List.range p.lines.length).map fun j : Nat => some (p.fragment.path, (j : Int) + p.offset)

theorem allOrigins_additions (p : Piece) :
    Addition.allOrigins p.additions = p.markers.map (fun _ => none) ++ p.origins := by
  cases hp : p.isMarked <;>
    simp [additions, markers, hp, Addition.allOrigins, Addition.origins, origins]

theorem length_allLines_markers (p : Piece) :
    (Addition.allLines p.markers).length = p.markers.length := by
  cases hp : p.isMarked <;> simp [markers, hp, Addition.allLines, Addition.lines]

end Piece

/-- The additions of a row of pieces. -/
def spread (ps : List Piece) : List Addition := ps.flatMap Piece.additions

def heightOf : List Piece → Nat
  | [] => 0
  | p :: ps => p.height + heightOf ps

theorem heightOf_append (ps qs : List Piece) : heightOf (ps ++ qs) = heightOf ps + heightOf qs := by
  induction ps with
  | nil => rw [List.nil_append, heightOf, Nat.zero_add]
  | cons p ps ih => rw [List.cons_append, heightOf, heightOf, ih, Nat.add_assoc]

theorem spread_append (ps qs : List Piece) : spread (ps ++ qs) = spread ps ++ spread qs :=
  List.flatMap_append

theorem spread_cons (p : Piece) (ps : List Piece) : spread (p :: ps) = p.additions ++ spread ps :=
  List.flatMap_cons

theorem length_allLines_spread (ps : List Piece) :
    (Addition.allLines (spread ps)).length = heightOf ps := by
  induction ps with
  | nil => rfl
  | cons p ps ih =>
      rw [spread_cons, Addition.allLines_append, List.length_append, ih, Piece.allLines_additions,
        List.length_append, Piece.length_allLines_markers, heightOf, Piece.height]

theorem exists_piece {ps : List Piece} {i : Nat} (h : i < heightOf ps) :
    ∃ front p back j, ps = front ++ p :: back ∧ i = heightOf front + j ∧ j < p.height := by
  induction ps generalizing i with
  | nil => simp [heightOf] at h
  | cons p ps ih =>
      rw [heightOf] at h
      by_cases hp : i < p.height
      · exact ⟨[], p, ps, i, rfl, by rw [heightOf, Nat.zero_add], hp⟩
      · obtain ⟨front, q, back, j, rfl, hi, hj⟩ := ih (i := i - p.height) (by omega)
        refine ⟨p :: front, q, back, j, rfl, ?_, hj⟩
        rw [heightOf]
        omega

theorem getElem?_block {α : Type} (front block back : List α) {j : Nat} (hj : j < block.length) :
    (front ++ (block ++ back))[front.length + j]? = block[j]? := by
  rw [List.getElem?_append_right (Nat.le_add_right _ j), Nat.add_sub_cancel_left,
    List.getElem?_append_left hj]

/-- Line `i` of the document of the pieces is line `j` of the piece. -/
def StandsAt (ps : List Piece) (p : Piece) (j i : Nat) : Prop :=
  ∃ front back, ps = front ++ p :: back ∧ i = heightOf front + p.markers.length + j ∧
    j < p.lines.length

def MarkedAt (ps : List Piece) (p : Piece) (i : Nat) : Prop :=
  ∃ front back, ps = front ++ p :: back ∧ i = heightOf front ∧ p.isMarked = true

theorem allLines_spread_eq (front back : List Piece) (p : Piece) :
    Addition.allLines (spread (front ++ p :: back)) =
      (Addition.allLines (spread front) ++ Addition.allLines p.markers) ++
        (p.lines ++ Addition.allLines (spread back)) := by
  rw [spread_append, spread_cons, Addition.allLines_append, Addition.allLines_append,
    Piece.allLines_additions, List.append_assoc, List.append_assoc]

theorem allOrigins_spread_eq (front back : List Piece) (p : Piece) :
    Addition.allOrigins (spread (front ++ p :: back)) =
      (Addition.allOrigins (spread front) ++ p.markers.map fun _ => none) ++
        (p.origins ++ Addition.allOrigins (spread back)) := by
  rw [spread_append, spread_cons, Addition.allOrigins_append, Addition.allOrigins_append,
    Piece.allOrigins_additions, List.append_assoc, List.append_assoc]

theorem StandsAt.line {ps : List Piece} {p : Piece} {j i : Nat} (h : StandsAt ps p j i) :
    (Addition.allLines (spread ps))[i]? = p.lines[j]? := by
  obtain ⟨front, back, rfl, rfl, hj⟩ := h
  have hlength : (Addition.allLines (spread front) ++ Addition.allLines p.markers).length =
      heightOf front + p.markers.length := by
    rw [List.length_append, length_allLines_spread, Piece.length_allLines_markers]
  rw [allLines_spread_eq, ← hlength, getElem?_block _ _ _ hj]

theorem StandsAt.origin {ps : List Piece} {p : Piece} {j i : Nat} (h : StandsAt ps p j i) :
    (Addition.allOrigins (spread ps))[i]? =
      some (some (p.fragment.path, (j : Int) + p.offset)) := by
  obtain ⟨front, back, rfl, rfl, hj⟩ := h
  have hlength : (Addition.allOrigins (spread front) ++
      p.markers.map fun _ => (none : Option (Text × Int))).length =
      heightOf front + p.markers.length := by
    rw [List.length_append, Addition.length_allOrigins, length_allLines_spread, List.length_map]
  rw [allOrigins_spread_eq, ← hlength, getElem?_block _ _ _ (by simpa [Piece.origins] using hj),
    Piece.origins, List.getElem?_map, List.getElem?_range hj, Option.map_some]

theorem MarkedAt.line {ps : List Piece} {p : Piece} {i : Nat} (h : MarkedAt ps p i) :
    (Addition.allLines (spread ps))[i]? =
      some (lineMarker ((p.offset : Int) + 1) p.fragment.path) := by
  obtain ⟨front, back, rfl, rfl, hp⟩ := h
  rw [allLines_spread_eq, List.append_assoc, ← length_allLines_spread,
    ← Nat.add_zero (List.length _),
    getElem?_block _ _ _ (by simp [Piece.markers, hp, Addition.allLines, Addition.lines])]
  simp [Piece.markers, hp, Addition.allLines, Addition.lines]

theorem MarkedAt.origin {ps : List Piece} {p : Piece} {i : Nat} (h : MarkedAt ps p i) :
    (Addition.allOrigins (spread ps))[i]? = some none := by
  obtain ⟨front, back, rfl, rfl, hp⟩ := h
  rw [allOrigins_spread_eq, List.append_assoc, ← length_allLines_spread,
    ← Addition.length_allOrigins, ← Nat.add_zero (List.length _),
    getElem?_block _ _ _ (by simp [Piece.markers, hp])]
  simp [Piece.markers, hp]

theorem standsAt_or_markedAt {ps : List Piece} {i : Nat} (h : i < heightOf ps) :
    (∃ p j, StandsAt ps p j i) ∨ ∃ p, MarkedAt ps p i := by
  obtain ⟨front, p, back, j, hps, rfl, hj⟩ := exists_piece h
  by_cases hmarker : j < p.markers.length
  · have hp : p.isMarked = true := by
      cases hp : p.isMarked with
      | true => rfl
      | false => simp [Piece.markers, hp] at hmarker
    have hone : p.markers.length = 1 := by simp [Piece.markers, hp]
    exact Or.inr ⟨p, front, back, hps, by omega, hp⟩
  · rw [Piece.height] at hj
    exact Or.inl ⟨p, j - p.markers.length, front, back, hps, by omega, by omega⟩

/-- The pieces of a merge, in the order in which they stand in the document. -/
def pieces (hoist : Bool) (primary : Fragment) (imports : List Import) : List Piece :=
  (if hoist then imports.map .header else []) ++ .whole primary :: imports.map .body

theorem spread_headers (imports : List Import) :
    spread (imports.map .header) = imports.map Import.headerAddition := by
  induction imports with
  | nil => rfl
  | cons i imports ih =>
      rw [List.map_cons, spread_cons, ih]
      rfl

theorem spread_bodies (imports : List Import) :
    spread (imports.map .body) = imports.flatMap Import.bodyAdditions := by
  induction imports with
  | nil => rfl
  | cons i imports ih =>
      rw [List.map_cons, spread_cons, ih]
      rfl

theorem mergeAdditions_eq (hoist : Bool) (primary : Fragment) (imports : List Import) :
    mergeAdditions hoist primary imports = spread (pieces hoist primary imports) := by
  rw [pieces, spread_append, spread_cons, spread_bodies, mergeAdditions, List.append_assoc]
  cases hoist with
  | false => rfl
  | true =>
      rw [if_pos rfl, if_pos rfl, spread_headers]
      rfl

theorem ofFragment_ok {f : Fragment} {s : Header.Split} (h : Header.split f.text = .ok s) :
    Import.ofFragment f = .ok ⟨f, s⟩ := by
  simp [Import.ofFragment, h]

theorem exists_imports {imported : List Fragment}
    (h : ∀ f ∈ imported, ∃ s, Header.split f.text = .ok s) :
    ∃ imports, Import.ofFragments imported = .ok imports ∧
      imports.map Import.fragment = imported ∧
      ∀ i ∈ imports, Header.split i.fragment.text = .ok i.split := by
  induction imported with
  | nil => exact ⟨[], rfl, rfl, by simp⟩
  | cons f imported ih =>
      obtain ⟨⟨s, hs⟩, hrest⟩ := List.forall_mem_cons.mp h
      obtain ⟨imports, hread, hfragments, hsplits⟩ := ih hrest
      refine ⟨⟨f, s⟩ :: imports, ?_, ?_, ?_⟩
      · simp only [Import.ofFragments, ofFragment_ok hs, hread]
        rfl
      · rw [List.map_cons, hfragments]
      · exact List.forall_mem_cons.mpr ⟨hs, hsplits⟩

theorem merge_eq {imported : List Fragment} {imports : List Import}
    (h : Import.ofFragments imported = .ok imports) (hoist : Bool) (primary : Fragment) :
    merge hoist primary imported =
      .ok (Document.ofAdditions (spread (pieces hoist primary imports))) := by
  simp only [merge, h, mergeImports, mergeAdditions_eq, Document.addAll_empty]
  rfl

end ScriptWeave
