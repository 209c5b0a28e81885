import Mathlib.Data.List.Basic
import ScriptWeave.Document
import ScriptWeave.Proofs.RangeMap

/-!
Documents that grow from nothing by additions. Every run of additions succeeds, and what it leaves
behind is written down addition by addition: lines, markers and entries, each from the line at
which the addition starts. The markers and the entries part the lines of the document among them,
and every entry gives back the code that was added.
-/

namespace ScriptWeave

namespace Addition

def lines : Addition → List Text
  | .marker line path => [lineMarker line path]
  | .code _ lines _ => lines

def markersAt (start : Nat) : Addition → List Nat
  | .marker _ _ => [start]
  | .code _ _ _ => []

def entriesAt (start : Nat) : Addition → List RangeEntry
  | .marker _ _ => []
  | .code file lines offset =>
      if lines = [] then [] else [⟨start, start + lines.length, file, offset⟩]

def origins : Addition → List (Option (Text × Int))
  | .marker _ _ => [none]
  | .code file lines offset =>
      (List.range lines.length).map fun j : Nat => some (file, (j : Int) + offset)

def hasCode : Addition → Bool
  | .marker _ _ => false
  | .code _ lines _ => lines ≠ []

def allLines (as : List Addition) : List Text := as.flatMap lines

def allOrigins (as : List Addition) : List (Option (Text × Int)) := as.flatMap origins

def markersFrom : Nat → List Addition → List Nat
  | _, [] => []
  | start, a :: as => a.markersAt start ++ markersFrom (start + a.lines.length) as

def entriesFrom : Nat → List Addition → List RangeEntry
  | _, [] => []
  | start, a :: as => a.entriesAt start ++ entriesFrom (start + a.lines.length) as

theorem length_origins (a : Addition) : a.origins.length = a.lines.length := by
  cases a <;> simp [origins, lines]

theorem length_allLines_cons (a : Addition) (as : List Addition) :
    (allLines (a :: as)).length = a.lines.length + (allLines as).length := by
  simp [allLines]

theorem length_allOrigins (as : List Addition) :
    (allOrigins as).length = (allLines as).length := by
  simp [allOrigins, allLines, List.length_flatMap, length_origins]

end Addition

namespace Document

open Addition

def EndsInside (d : Document) : Prop := ∀ e ∈ d.ranges.entries, e.stop ≤ d.lines.length

def extend (d : Document) (as : List Addition) : Document where
  lines := d.lines ++ allLines as
  markers := d.markers ++ markersFrom d.lines.length as
  ranges := d.ranges.append (entriesFrom d.lines.length as)

theorem extend_singleton (d : Document) (a : Addition) :
    d.extend [a] =
      { lines := d.lines ++ a.lines
        markers := d.markers ++ a.markersAt d.lines.length
        ranges := d.ranges.append (a.entriesAt d.lines.length) } := by
  simp [extend, allLines, markersFrom, entriesFrom]

theorem add_eq {d : Document} (h : d.EndsInside) (a : Addition) :
    d.add a = .ok (d.extend [a]) := by
  rw [extend_singleton]
  cases a with
  | marker line path =>
      simp [add, addMarker, Addition.lines, markersAt, entriesAt]
  | code file code offset =>
      let e : RangeEntry := ⟨d.lines.length, d.lines.length + code.length, file, offset⟩
      simp only [add, addCode, Addition.lines, markersAt, entriesAt, List.append_nil]
      by_cases hcode : code = []
      · have hempty : e.stop ≤ e.start := by simp [e, hcode]
        rw [RangeMap.add_of_empty hempty, if_pos hcode, RangeMap.append_nil]
      · have hlength : 0 < code.length := List.length_pos_of_ne_nil hcode
        have hlong : e.start < e.stop := by
          dsimp only [e]
          omega
        have hroom : d.ranges.HasRoom e := fun last hlast => h last (List.mem_of_getLast? hlast)
        rw [RangeMap.add_of_room hlong hroom, if_neg hcode]

theorem endsInside_extend {d : Document} (h : d.EndsInside) (a : Addition) :
    (d.extend [a]).EndsInside := by
  rw [extend_singleton]
  intro e he
  rw [List.length_append]
  rcases List.mem_append.mp he with hold | hnew
  · have hstop := h e hold
    omega
  · cases a with
    | marker line path => simp [entriesAt] at hnew
    | code file code offset =>
        simp only [entriesAt] at hnew
        split at hnew
        · simp at hnew
        · rw [List.mem_singleton] at hnew
          simp [hnew, Addition.lines]

theorem extend_extend (d : Document) (a : Addition) (as : List Addition) :
    (d.extend [a]).extend as = d.extend (a :: as) := by
  simp [extend, allLines, markersFrom, entriesFrom]

theorem addAll_eq {d : Document} (h : d.EndsInside) (as : List Addition) :
    d.addAll as = .ok (d.extend as) := by
  induction as generalizing d with
  | nil => simp [addAll, extend, allLines, markersFrom, entriesFrom]
  | cons a as ih =>
      simp only [addAll, add_eq h a]
      rw [ih (endsInside_extend h a), extend_extend]

def ofAdditions (as : List Addition) : Document where
  lines := allLines as
  markers := markersFrom 0 as
  ranges := RangeMap.append {} (entriesFrom 0 as)

theorem addAll_empty (as : List Addition) : addAll {} as = .ok (ofAdditions as) := by
  have hinside : EndsInside {} := by
    intro e he
    simp at he
  rw [addAll_eq hinside as]
  simp [extend, ofAdditions]

end Document

namespace Addition

theorem allLines_append (as bs : List Addition) :
    allLines (as ++ bs) = allLines as ++ allLines bs :=
  List.flatMap_append

theorem allOrigins_append (as bs : List Addition) :
    allOrigins (as ++ bs) = allOrigins as ++ allOrigins bs :=
  List.flatMap_append

theorem markersFrom_append (start : Nat) (as bs : List Addition) :
    markersFrom start (as ++ bs) =
      markersFrom start as ++ markersFrom (start + (allLines as).length) bs := by
  induction as generalizing start with
  | nil => simp [markersFrom, allLines]
  | cons a as ih =>
      rw [List.cons_append, markersFrom, markersFrom, ih, length_allLines_cons, List.append_assoc,
        Nat.add_assoc]

theorem entriesFrom_append (start : Nat) (as bs : List Addition) :
    entriesFrom start (as ++ bs) =
      entriesFrom start as ++ entriesFrom (start + (allLines as).length) bs := by
  induction as generalizing start with
  | nil => simp [entriesFrom, allLines]
  | cons a as ih =>
      rw [List.cons_append, entriesFrom, entriesFrom, ih, length_allLines_cons, List.append_assoc,
        Nat.add_assoc]

theorem eq_of_mem_markersAt {start m : Nat} {a : Addition} (h : m ∈ a.markersAt start) :
    m = start ∧ a.lines.length = 1 := by
  cases a with
  | marker line path => simpa [markersAt, lines] using h
  | code file code offset => simp [markersAt] at h

theorem mem_entriesAt {start : Nat} {a : Addition} {e : RangeEntry} (h : e ∈ a.entriesAt start) :
    e.start = start ∧ e.stop = start + a.lines.length ∧ a = .code e.file a.lines e.offset ∧
      a.lines ≠ [] := by
  cases a with
  | marker line path => simp [entriesAt] at h
  | code file code offset =>
      simp only [entriesAt] at h
      split at h
      · simp at h
      · rename_i hcode
        rw [List.mem_singleton] at h
        subst h
        exact ⟨rfl, rfl, rfl, hcode⟩

theorem bounds_of_mem_markersFrom {start m : Nat} {as : List Addition}
    (h : m ∈ markersFrom start as) : start ≤ m ∧ m < start + (allLines as).length := by
  induction as generalizing start with
  | nil => simp [markersFrom] at h
  | cons a as ih =>
      rw [length_allLines_cons]
      rw [markersFrom, List.mem_append] at h
      rcases h with hhere | hlater
      · obtain ⟨hm, hlength⟩ := eq_of_mem_markersAt hhere
        omega
      · have hbounds := ih hlater
        omega

theorem increasing_markersFrom (start : Nat) (as : List Addition) :
    (markersFrom start as).Pairwise (· < ·) := by
  induction as generalizing start with
  | nil => exact List.Pairwise.nil
  | cons a as ih =>
      rw [markersFrom, List.pairwise_append]
      refine ⟨?_, ih _, ?_⟩
      · cases a <;> simp [markersAt]
      · intro m hm m' hm'
        obtain ⟨hstart, hlength⟩ := eq_of_mem_markersAt hm
        have hbounds := bounds_of_mem_markersFrom hm'
        omega

theorem bounds_of_mem_entriesFrom {start : Nat} {as : List Addition} {e : RangeEntry}
    (h : e ∈ entriesFrom start as) :
    start ≤ e.start ∧ e.start < e.stop ∧ e.stop ≤ start + (allLines as).length := by
  induction as generalizing start with
  | nil => simp [entriesFrom] at h
  | cons a as ih =>
      rw [length_allLines_cons]
      rw [entriesFrom, List.mem_append] at h
      rcases h with hhere | hlater
      · obtain ⟨hstart, hstop, -, hlines⟩ := mem_entriesAt hhere
        have hlength := List.length_pos_of_ne_nil hlines
        omega
      · have hbounds := ih hlater
        omega

theorem apart_entriesFrom (start : Nat) (as : List Addition) :
    (entriesFrom start as).Pairwise fun e e' => e.stop ≤ e'.start := by
  induction as generalizing start with
  | nil => exact List.Pairwise.nil
  | cons a as ih =>
      rw [entriesFrom, List.pairwise_append]
      refine ⟨?_, ih _, ?_⟩
      · cases a with
        | marker line path => simp [entriesAt]
        | code file code offset =>
            simp only [entriesAt]
            split <;> simp
      · intro e he e' he'
        obtain ⟨-, hstop, -⟩ := mem_entriesAt he
        have hbounds := bounds_of_mem_entriesFrom he'
        omega

theorem ordered_entriesFrom (start : Nat) (as : List Addition) :
    RangeMap.Ordered (entriesFrom start as) :=
  RangeMap.ordered_iff_pairwise.mpr
    ⟨fun _ he => (bounds_of_mem_entriesFrom he).2.1, apart_entriesFrom start as⟩

end Addition

namespace Document

open Addition

/-- How many markers and entries have the line as one of their lines. -/
def owners (d : Document) (line : Int) : Nat :=
  d.markers.countP (fun m : Nat => (m : Int) = line) + d.ranges.entries.countP (·.contains line)

/-- The addition that an entry records, with the lines that the document has for it. -/
def readBack (d : Document) (e : RangeEntry) : Addition :=
  .code e.file ((d.lines.drop e.start.toNat).take (e.stop - e.start).toNat) e.offset

theorem owners_at (start : Nat) (a : Addition) (line : Int) :
    (a.markersAt start).countP (fun m : Nat => (m : Int) = line) +
        (a.entriesAt start).countP (·.contains line) =
      if start ≤ line ∧ line < start + a.lines.length then 1 else 0 := by
  cases a with
  | marker l path =>
      have hline : (start : Int) = line ↔ start ≤ line ∧ line < start + 1 := by omega
      simp only [markersAt, entriesAt, List.countP_nil, Nat.add_zero, List.countP_singleton,
        decide_eq_true_eq]
      exact if_congr hline rfl rfl
  | code file code offset =>
      simp only [markersAt, entriesAt, Addition.lines]
      by_cases hcode : code = []
      · simp [hcode]
      · rw [if_neg hcode, List.countP_nil, Nat.zero_add, List.countP_singleton]
        exact if_congr RangeMap.contains_iff rfl rfl

theorem owners_from (start : Nat) (as : List Addition) (line : Int) :
    (markersFrom start as).countP (fun m : Nat => (m : Int) = line) +
        (entriesFrom start as).countP (·.contains line) =
      if start ≤ line ∧ line < start + (allLines as).length then 1 else 0 := by
  induction as generalizing start with
  | nil => simp [markersFrom, entriesFrom, allLines]
  | cons a as ih =>
      have hhere := owners_at start a line
      have hlater := ih (start + a.lines.length)
      rw [markersFrom, entriesFrom, List.countP_append, List.countP_append, length_allLines_cons]
      push_cast at hlater ⊢
      split at hhere <;> split at hlater <;> split <;> omega

theorem readBack_from (before : List Text) (as : List Addition) (d : Document)
    (h : d.lines = before ++ allLines as) :
    (entriesFrom before.length as).map d.readBack = as.filter hasCode := by
  induction as generalizing before with
  | nil => simp [entriesFrom]
  | cons a as ih =>
      have hrest : d.lines = (before ++ a.lines) ++ allLines as := by
        rw [h, List.append_assoc, allLines, allLines, List.flatMap_cons]
      have hlater := ih (before ++ a.lines) hrest
      rw [List.length_append] at hlater
      rw [entriesFrom, List.map_append, hlater]
      cases a with
      | marker line path => simp [entriesAt, hasCode]
      | code file code offset =>
          by_cases hcode : code = []
          · simp [entriesAt, hasCode, hcode]
          · simp only [Addition.lines] at hrest
            have hlength : ((before.length : Int) + code.length - before.length).toNat =
                code.length := by omega
            have hback : d.readBack ⟨before.length, before.length + code.length, file, offset⟩ =
                .code file code offset := by
              rw [readBack, hrest, hlength]
              simp
            simp [entriesAt, hasCode, hcode, hback]

theorem endsInside_ofAdditions (as : List Addition) : (ofAdditions as).EndsInside := by
  intro e he
  have hbounds := bounds_of_mem_entriesFrom he
  simpa [ofAdditions] using hbounds.2.2

theorem extend_ofAdditions (as bs : List Addition) :
    (ofAdditions as).extend bs = ofAdditions (as ++ bs) := by
  simp [extend, ofAdditions, allLines_append, markersFrom_append, entriesFrom_append]

theorem addAll_partitions_lines (as : List Addition) :
    ∃ d, addAll {} as = .ok d ∧
      d.markers.Pairwise (· < ·) ∧
      (∀ e ∈ d.ranges.entries, e.start < e.stop) ∧
      d.ranges.entries.Pairwise (fun e e' => e.start < e'.start ∧ e.stop ≤ e'.start) ∧
      (∀ line, d.owners line = if 0 ≤ line ∧ line < d.lines.length then 1 else 0) ∧
      d.ranges.entries.map d.readBack = as.filter hasCode ∧
      ∀ n, ∃ d', addAll {} (as.take n) = .ok d' ∧ d'.addAll (as.drop n) = .ok d ∧
        d'.lines <+: d.lines ∧ d'.markers <+: d.markers ∧
        d'.ranges.entries <+: d.ranges.entries := by
  have hlong (e : RangeEntry) (he : e ∈ (ofAdditions as).ranges.entries) : e.start < e.stop :=
    (bounds_of_mem_entriesFrom he).2.1
  refine ⟨ofAdditions as, addAll_empty as, increasing_markersFrom 0 as, hlong, ?_, ?_, ?_, ?_⟩
  · refine (apart_entriesFrom 0 as).imp_of_mem fun he _ happart => ?_
    have hlength := hlong _ he
    omega
  · intro line
    exact (owners_from 0 as line).trans (if_congr (by simp [ofAdditions]) rfl rfl)
  · exact readBack_from [] as (ofAdditions as) rfl
  · intro n
    have hrest : (ofAdditions (as.take n)).extend (as.drop n) = ofAdditions as := by
      rw [extend_ofAdditions, List.take_append_drop]
    refine ⟨ofAdditions (as.take n), addAll_empty _, ?_, ?_⟩
    · rw [addAll_eq (endsInside_ofAdditions _), hrest]
    · rw [← hrest]
      exact ⟨List.prefix_append _ _, List.prefix_append _ _, List.prefix_append _ _⟩

end Document

end ScriptWeave
