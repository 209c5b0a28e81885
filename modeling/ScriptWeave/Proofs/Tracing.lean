import ScriptWeave.Proofs.Additions

namespace ScriptWeave

namespace Addition

theorem trace_entriesAt (start : Nat) (a : Addition) (line : Int) :
    ((a.entriesAt start).find? (·.contains line)).map (·.trace line) =
      if line < start then none else a.origins[(line - start).toNat]?.join := by
  cases a with
  | marker l path =>
      have hnone : ([none] : List (Option (Text × Int)))[(line - start).toNat]?.join = none := by
        cases (line - start).toNat <;> rfl
      rw [entriesAt, origins, hnone, ite_self]
      rfl
  | code file code offset =>
      by_cases hcode : code = []
      · simp [entriesAt, origins, hcode]
      · simp only [entriesAt, if_neg hcode, origins, List.find?_singleton, RangeMap.contains_iff,
          List.getElem?_map]
        by_cases hbefore : line < start
        · rw [if_neg (by omega), if_pos hbefore, Option.map_none]
        · rw [if_neg hbefore]
          by_cases hinside : line < start + code.length
          · rw [if_pos (by omega), List.getElem?_range (by omega)]
            have hindex : ((line - start).toNat : Int) = line - start := by omega
            rw [Option.map_some, Option.map_some, Option.join_some, RangeEntry.trace, hindex]
          · rw [if_neg (by omega), List.getElem?_eq_none (by simp; omega)]
            rfl

theorem trace_entriesFrom (start : Nat) (as : List Addition) (line : Int) :
    ((entriesFrom start as).find? (·.contains line)).map (·.trace line) =
      if line < start then none else (allOrigins as)[(line - start).toNat]?.join := by
  induction as generalizing start with
  | nil => simp [entriesFrom, allOrigins]
  | cons a as ih =>
      rw [entriesFrom, List.find?_append, Option.map_or, trace_entriesAt, ih]
      have horigins : allOrigins (a :: as) = a.origins ++ allOrigins as := by
        simp [allOrigins]
      rw [horigins]
      by_cases hbefore : line < start
      · rw [if_pos hbefore, if_pos hbefore, if_pos (by omega), Option.or_none]
      · rw [if_neg hbefore, if_neg hbefore]
        by_cases hinside : line < start + a.lines.length
        · have hindex : (line - start).toNat < a.origins.length := by
            rw [length_origins]
            omega
          rw [if_pos (by omega), Option.or_none, List.getElem?_append_left hindex]
        · have hindex : a.origins.length ≤ (line - start).toNat := by
            rw [length_origins]
            omega
          rw [if_neg (by omega), List.getElem?_append_right hindex, List.getElem?_eq_none hindex]
          have hrest : (line - ((start + a.lines.length : Nat) : Int)).toNat =
              (line - start).toNat - a.origins.length := by
            rw [length_origins]
            omega
          rw [hrest]
          rfl

end Addition

namespace Document

open Addition

theorem sound_ofAdditions (as : List Addition) : (ofAdditions as).ranges.Sound :=
  ⟨ordered_entriesFrom 0 as, rfl⟩

theorem trace_ofAdditions (as : List Addition) (i : Nat) :
    (ofAdditions as).ranges.trace i = (allOrigins as)[i]?.join := by
  have hscan := trace_entriesFrom 0 as i
  rw [if_neg (by omega)] at hscan
  rw [RangeMap.trace, (sound_ofAdditions as).lookup_eq_scan]
  simpa [RangeMap.scan, ofAdditions] using hscan

theorem trace_of_neg (as : List Addition) {line : Int} (h : line < 0) :
    (ofAdditions as).ranges.trace line = none := by
  have hscan := trace_entriesFrom 0 as line
  rw [if_pos (by omega)] at hscan
  rw [RangeMap.trace, (sound_ofAdditions as).lookup_eq_scan]
  exact hscan

theorem trace_of_length_le (as : List Addition) {line : Int}
    (h : ((ofAdditions as).lines.length : Int) ≤ line) :
    (ofAdditions as).ranges.trace line = none := by
  obtain ⟨i, rfl⟩ := Int.eq_ofNat_of_zero_le (show 0 ≤ line by omega)
  have hlength : (allOrigins as).length ≤ i := by
    rw [length_allOrigins]
    simpa [ofAdditions] using h
  rw [trace_ofAdditions, List.getElem?_eq_none hlength]
  rfl

theorem trace_eq_none_iff (as : List Addition) (line : Int) :
    (ofAdditions as).ranges.trace line = none ↔
      (entriesFrom 0 as).countP (·.contains line) = 0 := by
  rw [RangeMap.trace, (sound_ofAdditions as).lookup_eq_scan, Option.map_eq_none_iff,
    RangeMap.scan, List.find?_eq_none, List.countP_eq_zero]
  rfl

theorem mem_markers_iff (as : List Addition) (i : Nat) :
    i ∈ (ofAdditions as).markers ↔
      i < (ofAdditions as).lines.length ∧ (ofAdditions as).ranges.trace i = none := by
  have howners := owners_from 0 as i
  have hmarker : i ∈ markersFrom 0 as ↔
      0 < (markersFrom 0 as).countP fun m : Nat => (m : Int) = i := by
    rw [List.countP_pos_iff]
    constructor
    · exact fun hi => ⟨i, hi, by simp⟩
    · rintro ⟨m, hm, heq⟩
      rw [decide_eq_true_eq] at heq
      obtain rfl : m = i := by omega
      exact hm
  have hinside : (((0 : Nat) : Int) ≤ i ∧ (i : Int) < (0 : Nat) + (allLines as).length) ↔
      i < (ofAdditions as).lines.length := by
    simp [ofAdditions]
  rw [if_congr hinside rfl rfl] at howners
  rw [trace_eq_none_iff]
  change i ∈ markersFrom 0 as ↔ _
  rw [hmarker]
  split at howners
  · rename_i hlt
    simp only [hlt, true_and]
    omega
  · rename_i hge
    simp only [hge, false_and, iff_false]
    omega

end Document

end ScriptWeave
