import Mathlib.Data.List.Basic
import ScriptWeave.RangeMap

/-!
Range maps as calls leave them. A call records its entry as a whole or changes nothing, so that the
entries stay in order, whatever is recorded, and the starts beside them are theirs. Bisection then
counts the entries that start no later than a line, and the look-up finds what a scan over all of
them finds.
-/

namespace ScriptWeave.RangeMap

variable {entries : List RangeEntry} {m : RangeMap} {e : RangeEntry}

theorem ordered_cons {e : RangeEntry} :
    Ordered (e :: entries) ↔
      e.start < e.stop ∧ (∀ e' ∈ entries.head?, e.stop ≤ e'.start) ∧ Ordered entries := by
  cases entries <;> simp [Ordered]

theorem ordered_iff_pairwise :
    Ordered entries ↔
      (∀ e ∈ entries, e.start < e.stop) ∧ entries.Pairwise fun e e' => e.stop ≤ e'.start := by
  induction entries with
  | nil => simp [Ordered]
  | cons e entries ih =>
      rw [ordered_cons, ih, List.forall_mem_cons, List.pairwise_cons]
      constructor
      · rintro ⟨he, hhead, hlong, hpair⟩
        refine ⟨⟨he, hlong⟩, ?_, hpair⟩
        intro e' he'
        cases entries with
        | nil => simp at he'
        | cons first more =>
            have hfirst : e.stop ≤ first.start := hhead first rfl
            rcases List.mem_cons.mp he' with rfl | hmore
            · exact hfirst
            · have hbehind := (List.pairwise_cons.mp hpair).1 e' hmore
              have hlength := hlong first List.mem_cons_self
              omega
      · rintro ⟨⟨he, hlong⟩, hbehind, hpair⟩
        exact ⟨he, fun e' he' => hbehind e' (List.mem_of_mem_head? he'), hlong, hpair⟩

/-- The entries are in order, and the starts are those of the entries. -/
structure Sound (m : RangeMap) : Prop where
  ordered : Ordered m.entries
  starts_eq : m.starts = m.entries.map (·.start)

def Parts (starts : List Int) (line : Int) (n : Nat) : Prop :=
  n ≤ starts.length ∧ (∀ j start, starts[j]? = some start → j < n → start ≤ line) ∧
    ∀ j start, starts[j]? = some start → n ≤ j → line < start

theorem bisect_parts {starts : List Int} (h : starts.Pairwise (· ≤ ·)) (line : Int)
    (fuel low high : Nat) (hfuel : high ≤ low + fuel) (hhigh : high ≤ starts.length)
    (hle : low ≤ high) (hlow : ∀ j start, starts[j]? = some start → j < low → start ≤ line)
    (habove : ∀ j start, starts[j]? = some start → high ≤ j → line < start) :
    Parts starts line (bisect starts line fuel low high) := by
  have hsorted {i j : Nat} {start start' : Int} (hi : starts[i]? = some start)
      (hj : starts[j]? = some start') (hij : i ≤ j) : start ≤ start' := by
    obtain ⟨hilt, rfl⟩ := List.getElem?_eq_some_iff.mp hi
    obtain ⟨hjlt, rfl⟩ := List.getElem?_eq_some_iff.mp hj
    rcases Nat.eq_or_lt_of_le hij with rfl | hlt
    · exact Int.le_refl _
    · exact List.pairwise_iff_getElem.mp h i j hilt hjlt hlt
  induction fuel generalizing low high with
  | zero =>
      have heq : low = high := by omega
      subst heq
      exact ⟨hhigh, hlow, habove⟩
  | succ fuel ih =>
      by_cases hlt : low < high
      · have hmiddle : (low + high) / 2 < starts.length := by omega
        have hstart := List.getElem?_eq_getElem hmiddle
        simp only [bisect, if_pos hlt, hstart]
        by_cases hline : line < starts[(low + high) / 2]
        · rw [if_pos hline]
          refine ih low ((low + high) / 2) (by omega) (by omega) (by omega) hlow ?_
          intro j start hj hle
          have hbehind := hsorted hstart hj hle
          omega
        · rw [if_neg hline]
          refine ih ((low + high) / 2 + 1) high (by omega) hhigh (by omega) ?_ habove
          intro j start hj hle
          have hbefore := hsorted hj hstart (by omega)
          omega
      · have heq : low = high := by omega
        subst heq
        simp only [bisect, if_neg hlt]
        exact ⟨hhigh, hlow, habove⟩

theorem sorted_starts (h : Ordered entries) : (entries.map (·.start)).Pairwise (· ≤ ·) := by
  obtain ⟨hlong, hpair⟩ := ordered_iff_pairwise.mp h
  refine List.pairwise_map.mpr (hpair.imp_of_mem fun he _ hapart => ?_)
  have hlength := hlong _ he
  omega

theorem Sound.rank_parts (h : Sound m) (line : Int) :
    Parts (m.entries.map (·.start)) line (m.rank line) := by
  rw [rank, h.starts_eq]
  refine bisect_parts (sorted_starts h.ordered) line _ 0 _ (by omega) (Nat.le_refl _)
    (Nat.zero_le _) ?_ ?_
  · intro j start _ hj
    exact absurd hj (Nat.not_lt_zero j)
  · intro j start hstart hj
    exact absurd (List.getElem?_eq_some_iff.mp hstart).1 (by omega)

theorem contains_iff {line : Int} :
    e.contains line = true ↔ e.start ≤ line ∧ line < e.stop := by
  simp [RangeEntry.contains]

theorem contains_eq_false_iff {line : Int} :
    e.contains line = false ↔ line < e.start ∨ e.stop ≤ line := by
  rw [← Bool.not_eq_true, contains_iff]
  omega

theorem Sound.lookup_eq_scan (h : Sound m) (line : Int) :
    m.lookup line = m.scan line := by
  obtain ⟨hbound, hbefore, hbehind⟩ := h.rank_parts line
  simp only [List.length_map, List.getElem?_map, Option.map_eq_some_iff, forall_exists_index,
    and_imp, forall_apply_eq_imp_iff₂] at hbound hbefore hbehind
  have hpair := (ordered_iff_pairwise.mp h.ordered).2
  rw [lookup, scan]
  cases hn : m.rank line with
  | zero =>
      rw [hn] at hbehind
      symm
      refine List.find?_eq_none.mpr fun e he => ?_
      obtain ⟨j, hj⟩ := List.getElem?_of_mem he
      have hstart := hbehind j e hj (Nat.zero_le j)
      rw [Bool.not_eq_true, contains_eq_false_iff]
      exact Or.inl hstart
  | succ n =>
      rw [hn] at hbound hbefore hbehind
      have hstart := hbefore n _ (List.getElem?_eq_getElem hbound) (Nat.lt_succ_self n)
      -- entries in front of the last candidate stop before it, those behind start past the line
      have hfront (j : Nat) (hj : j < n) : m.entries[j].contains line = false := by
        have hapart := List.pairwise_iff_getElem.mp hpair j n (by omega) hbound hj
        rw [contains_eq_false_iff]
        omega
      have hback (j : Nat) (hj : j < m.entries.length) (hlt : n < j) :
          m.entries[j].contains line = false := by
        have hpast := hbehind j _ (List.getElem?_eq_getElem hj) hlt
        rw [contains_eq_false_iff]
        exact Or.inl hpast
      simp only [List.getElem?_eq_getElem (show n < m.entries.length from hbound)]
      cases hc : m.entries[n].contains line with
      | true =>
          symm
          rw [Option.filter_some, if_pos hc, List.find?_eq_some_iff_getElem]
          exact ⟨hc, n, hbound, rfl, fun j hj => by simp [hfront j hj]⟩
      | false =>
          symm
          rw [Option.filter_some, hc, if_neg Bool.false_ne_true, List.find?_eq_none]
          intro e he
          obtain ⟨j, hj, rfl⟩ := List.mem_iff_getElem.mp he
          rw [Bool.not_eq_true]
          rcases Nat.lt_trichotomy j n with hlt | rfl | hgt
          · exact hfront j hlt
          · exact hc
          · exact hback j hj hgt

theorem Sound.countP_contains_le (h : Sound m) (line : Int) :
    m.entries.countP (·.contains line) ≤ 1 := by
  have hpair := (ordered_iff_pairwise.mp h.ordered).2.filter (·.contains line)
  rw [List.countP_eq_length_filter]
  have hinside : ∀ e ∈ m.entries.filter (·.contains line), e.start ≤ line ∧ line < e.stop :=
    fun e he => contains_iff.mp (List.mem_filter.mp he).2
  generalize m.entries.filter (·.contains line) = found at hpair hinside ⊢
  match found with
  | [] => exact Nat.zero_le 1
  | [_] => exact Nat.le_refl 1
  | e :: e' :: more =>
      have hapart := (List.pairwise_cons.mp hpair).1 e' List.mem_cons_self
      have he := hinside e List.mem_cons_self
      have he' := hinside e' (by simp)
      omega

theorem Sound.lookup_eq_some_iff (h : Sound m) {line : Int} :
    m.lookup line = some e ↔ e ∈ m.entries ∧ e.start ≤ line ∧ line < e.stop := by
  rw [h.lookup_eq_scan, scan, ← contains_iff]
  constructor
  · exact fun hfind => ⟨List.mem_of_find?_eq_some hfind, (List.find?_eq_some_iff_append.mp hfind).1⟩
  · rintro ⟨hmem, hcontains⟩
    rw [← List.head?_filter]
    have hfilter : e ∈ m.entries.filter (·.contains line) := List.mem_filter.mpr ⟨hmem, hcontains⟩
    have hone := h.countP_contains_le line
    rw [List.countP_eq_length_filter] at hone
    match hfound : m.entries.filter (·.contains line) with
    | [] => simp [hfound] at hfilter
    | [e'] => simpa [hfound, eq_comm] using hfilter
    | _ :: _ :: _ => simp [hfound] at hone

/-! ### Calls -/

/-- The map with further entries behind its own. -/
def append (m : RangeMap) (more : List RangeEntry) : RangeMap where
  entries := m.entries ++ more
  starts := m.starts ++ more.map (·.start)

@[simp] theorem entries_append (m : RangeMap) (more : List RangeEntry) :
    (m.append more).entries = m.entries ++ more := rfl

@[simp] theorem append_nil (m : RangeMap) : m.append [] = m := by
  simp [append]

@[simp] theorem append_append (m : RangeMap) (more behind : List RangeEntry) :
    (m.append more).append behind = m.append (more ++ behind) := by
  simp [append]

theorem call_eq (m : RangeMap) (e : RangeEntry) :
    m.call e =
      if e.stop ≤ e.start then (.ok none, m)
      else
        match m.entries.getLast? with
        | none => (.ok (some e), m.append [e])
        | some last =>
            if e.start < last.stop then (.error ⟨e.start, e.stop, last⟩, m)
            else (.ok (some e), m.append [e]) := by
  have hread (more : RangeMap → ExceptT RangeConflict (StateM RangeMap) (Option RangeEntry)) :
      (get >>= more).run.run m = (more m).run.run m := rfl
  rw [call, record]
  split
  · rfl
  · rw [hread]
    cases m.entries.getLast? with
    | none => rfl
    | some last =>
        dsimp only
        split <;> rfl

/-- There is room for an entry behind the others. -/
def HasRoom (m : RangeMap) (e : RangeEntry) : Prop := ∀ last ∈ m.entries.getLast?, last.stop ≤ e.start

theorem call_ways (m : RangeMap) (e : RangeEntry) :
    (e.stop ≤ e.start ∧ m.call e = (.ok none, m)) ∨
      (e.start < e.stop ∧ m.HasRoom e ∧ m.call e = (.ok (some e), m.append [e])) ∨
      ∃ last, e.start < e.stop ∧ last ∈ m.entries.getLast? ∧ e.start < last.stop ∧
        m.call e = (.error ⟨e.start, e.stop, last⟩, m) := by
  rw [call_eq]
  by_cases hempty : e.stop ≤ e.start
  · exact .inl ⟨hempty, by rw [if_pos hempty]⟩
  · have he : e.start < e.stop := by omega
    rw [if_neg hempty, HasRoom]
    cases hlast : m.entries.getLast? with
    | none => exact .inr (.inl ⟨he, by simp, rfl⟩)
    | some last =>
        dsimp only
        by_cases hconflict : e.start < last.stop
        · exact .inr (.inr ⟨last, he, rfl, hconflict, by rw [if_pos hconflict]⟩)
        · refine .inr (.inl ⟨he, ?_, by rw [if_neg hconflict]⟩)
          rintro _ ⟨⟩
          omega

theorem call_of_empty (h : e.stop ≤ e.start) : m.call e = (.ok none, m) := by
  rw [call_eq, if_pos h]

theorem call_of_room (h : e.start < e.stop) (hroom : HasRoom m e) :
    m.call e = (.ok (some e), m.append [e]) := by
  rcases call_ways m e with ⟨hempty, -⟩ | ⟨-, -, hcall⟩ | ⟨last, -, hlast, hconflict, -⟩
  · omega
  · exact hcall
  · have hbehind := hroom last hlast
    omega

theorem add_of_empty (h : e.stop ≤ e.start) :
    m.add e.start e.stop e.file e.offset = .ok (m, none) := by
  rw [add, call_of_empty h]

theorem add_of_room (h : e.start < e.stop) (hroom : m.HasRoom e) :
    m.add e.start e.stop e.file e.offset = .ok (m.append [e], some e) := by
  rw [add, call_of_room h hroom]

theorem ordered_append (h : Ordered entries) (he : e.start < e.stop)
    (hroom : ∀ last ∈ entries.getLast?, last.stop ≤ e.start) : Ordered (entries ++ [e]) := by
  obtain ⟨hlong, hpair⟩ := ordered_iff_pairwise.mp h
  refine ordered_iff_pairwise.mpr
    ⟨?_, List.pairwise_append.mpr ⟨hpair, List.pairwise_singleton _ _, ?_⟩⟩
  · exact List.forall_mem_append.mpr ⟨hlong, List.forall_mem_singleton.mpr he⟩
  · intro e' he' _ hmem
    obtain rfl := List.mem_singleton.mp hmem
    have hne : entries ≠ [] := List.ne_nil_of_mem he'
    obtain ⟨front, last, rfl⟩ := List.eq_nil_or_concat entries |>.resolve_left hne
    have hlast := hroom last (by simp)
    rcases List.mem_append.mp (List.concat_eq_append ▸ he') with hfront | hmem
    · have hapart := (List.pairwise_append.mp (List.concat_eq_append ▸ hpair)).2.2 e' hfront last
        List.mem_cons_self
      have hlength := hlong last (by simp)
      omega
    · obtain rfl := List.mem_singleton.mp hmem
      exact hlast

theorem Sound.call (h : Sound m) (e : RangeEntry) : (m.call e).2.Sound := by
  rcases call_ways m e with ⟨-, hcall⟩ | ⟨he, hroom, hcall⟩ | ⟨_, -, -, -, hcall⟩
  · rwa [hcall]
  · rw [hcall]
    exact ⟨ordered_append h.ordered he hroom, by simp [append, h.starts_eq]⟩
  · rwa [hcall]

/-- The map that a run of calls leaves behind, those that fail included. -/
def ofCalls (calls : List RangeEntry) : RangeMap := calls.foldl (fun m e => (m.call e).2) {}

theorem sound_ofCalls (calls : List RangeEntry) : (ofCalls calls).Sound := by
  have hrun (m : RangeMap) (h : m.Sound) : (calls.foldl (fun m e => (m.call e).2) m).Sound := by
    induction calls generalizing m with
    | nil => exact h
    | cons e calls ih => exact ih _ (h.call e)
  exact hrun {} ⟨trivial, rfl⟩

/-- A call that fails or passes its range over changes nothing, every other call adds one entry, and
whatever the calls were, the bisection finds the one entry of a line that a scan finds. -/
theorem lookup_of_calls (calls : List RangeEntry) :
    (∀ e, (∀ recorded, ((ofCalls calls).call e).1 ≠ .ok (some recorded)) →
      ((ofCalls calls).call e).2 = ofCalls calls) ∧
    (∀ e, (((ofCalls calls).call e).1 = .ok none ↔ e.stop ≤ e.start) ∧
      ((∃ conflict, ((ofCalls calls).call e).1 = .error conflict) ↔
        e.start < e.stop ∧ ¬ (ofCalls calls).HasRoom e) ∧
      (e.start < e.stop → (ofCalls calls).HasRoom e →
        (ofCalls calls).call e = (.ok (some e), (ofCalls calls).append [e]))) ∧
    (∀ e ∈ (ofCalls calls).entries, e.start < e.stop) ∧
    (ofCalls calls).entries.Pairwise (fun e e' => e.start < e'.start ∧ e.stop ≤ e'.start) ∧
    (ofCalls calls).starts = (ofCalls calls).entries.map (·.start) ∧
    ∀ line, (ofCalls calls).lookup line = (ofCalls calls).scan line ∧
      (∀ e, (ofCalls calls).lookup line = some e ↔
        e ∈ (ofCalls calls).entries ∧ e.start ≤ line ∧ line < e.stop) ∧
      (ofCalls calls).entries.countP (·.contains line) ≤ 1 ∧
      (ofCalls calls).trace line =
        ((ofCalls calls).scan line).map fun e => (e.file, line - e.start + e.offset) := by
  have hsound := sound_ofCalls calls
  generalize ofCalls calls = m at hsound ⊢
  obtain ⟨hlong, hpair⟩ := ordered_iff_pairwise.mp hsound.ordered
  refine ⟨fun e hfails => ?_, fun e => ⟨?_, ?_, call_of_room⟩, hlong, ?_, hsound.starts_eq, ?_⟩
  · rcases call_ways m e with ⟨-, hcall⟩ | ⟨-, -, hcall⟩ | ⟨_, -, -, -, hcall⟩
    · rw [hcall]
    · exact absurd (by rw [hcall]) (hfails e)
    · rw [hcall]
  · rcases call_ways m e with ⟨hempty, hcall⟩ | ⟨he, -, hcall⟩ | ⟨_, he, -, -, hcall⟩
    · simp [hcall, hempty]
    · simp [hcall, he]
    · simp [hcall, he]
  · rcases call_ways m e with ⟨hempty, hcall⟩ | ⟨-, hroom, hcall⟩ | ⟨last, he, hlast, hlt, hcall⟩
    · simp [hcall, Int.not_lt.mpr hempty]
    · simp [hcall, hroom]
    · have hnone : ¬ m.HasRoom e := fun hroom => by
        have hbehind := hroom last hlast
        omega
      simp [hcall, he, hnone]
  · refine hpair.imp_of_mem fun he _ hapart => ?_
    have hlength := hlong _ he
    omega
  · intro line
    refine ⟨hsound.lookup_eq_scan line, fun e => hsound.lookup_eq_some_iff,
      hsound.countP_contains_le line, ?_⟩
    rw [trace, hsound.lookup_eq_scan]
    rfl

end ScriptWeave.RangeMap
