import ScriptWeave.Proofs.Header.Lookahead

/-!
Patterns, in which the lexical rules of a header are written down. A pattern is tried at the start
of a text and backtracks: it gives all the places where it may stop, the preferred one first. What a
reader takes is the preferred match; a look-ahead asks only whether there is a match at all.
-/

namespace ScriptWeave.Header

open Text

inductive Pattern where
  | literal (w : Text)
  | one (p : Char → Bool)
  | many (p : Char → Bool)
  | few (p : Char → Bool)
  | optional (r : Pattern)
  | sequence (r s : Pattern)
  | either (r s : Pattern)
  | ahead (r : Pattern)
  | wordEnd

namespace Pattern

instance : Append Pattern := ⟨.sequence⟩

def oneOrMore (p : Char → Bool) : Pattern := .one p ++ .many p

def behindRuns (p : Char → Bool) : Text → List Text
  | [] => [[]]
  | c :: t => if p c then behindRuns p t ++ [c :: t] else [c :: t]

/-- The texts behind the places where a pattern may stop, in the order in which it tries them. -/
def rests : Pattern → Text → List Text
  | literal w, t => (afterPrefix? w t).toList
  | one _, [] => []
  | one p, c :: t => if p c then [t] else []
  | many p, t => behindRuns p t
  | few p, t => (behindRuns p t).reverse
  | optional r, t => r.rests t ++ [t]
  | sequence r s, t => (r.rests t).flatMap s.rests
  | either r s, t => r.rests t ++ s.rests t
  | ahead r, t => if r.rests t = [] then [] else [t]
  | wordEnd, [] => [[]]
  | wordEnd, c :: t => if isWordChar c then [] else [c :: t]

def after? (r : Pattern) (t : Text) : Option Text := (r.rests t).head?

section Membership

variable {p : Char → Bool} {r s : Pattern} {t u : Text}

theorem mem_behindRuns : u ∈ behindRuns p t ↔ ∃ run, t = run ++ u ∧ Consists p run := by
  induction t with
  | nil =>
      rw [behindRuns, List.mem_singleton]
      constructor
      · rintro rfl
        exact ⟨[], rfl, by simp [Consists]⟩
      · rintro ⟨run, hrun, -⟩
        exact (List.append_eq_nil_iff.mp hrun.symm).2
  | cons c t ih =>
      have hself : ∃ run, c :: t = run ++ (c :: t) ∧ Consists p run := ⟨[], rfl, by simp [Consists]⟩
      rw [behindRuns]
      split
      · rename_i hc
        rw [List.mem_append, ih, List.mem_singleton]
        constructor
        · rintro (⟨run, rfl, hrun⟩ | rfl)
          · exact ⟨c :: run, rfl, List.forall_mem_cons.mpr ⟨hc, hrun⟩⟩
          · exact hself
        · rintro ⟨run, hrun, hall⟩
          cases run with
          | nil => exact Or.inr hrun.symm
          | cons d run =>
              obtain ⟨rfl, rfl⟩ := List.cons.inj hrun
              exact Or.inl ⟨run, rfl, (List.forall_mem_cons.mp hall).2⟩
      · rename_i hc
        rw [List.mem_singleton]
        constructor
        · rintro rfl
          exact hself
        · rintro ⟨run, hrun, hall⟩
          cases run with
          | nil => exact hrun.symm
          | cons d run =>
              obtain ⟨rfl, -⟩ := List.cons.inj hrun
              exact absurd (hall c List.mem_cons_self) hc

theorem head?_behindRuns (p : Char → Bool) (t : Text) :
    (behindRuns p t).head? = some (t.dropWhile p) := by
  induction t with
  | nil => rfl
  | cons c t ih =>
      rw [behindRuns]
      split
      · rename_i hc
        rw [List.head?_append, ih, List.dropWhile_cons_of_pos hc]
        rfl
      · rename_i hc
        rw [List.dropWhile_cons_of_neg hc]
        rfl

@[simp] theorem mem_literal {w : Text} : u ∈ (literal w).rests t ↔ t = w ++ u := by
  rw [rests, Option.mem_toList, afterPrefix?_eq_some_iff]

@[simp] theorem mem_one : u ∈ (one p).rests t ↔ ∃ c, t = c :: u ∧ p c = true := by
  cases t with
  | nil => simp [rests]
  | cons c t =>
      rw [rests]
      split
      · rename_i hc
        rw [List.mem_singleton]
        constructor
        · rintro rfl
          exact ⟨c, rfl, hc⟩
        · rintro ⟨d, hd, -⟩
          exact (List.cons.inj hd).2.symm
      · rename_i hc
        simp only [List.not_mem_nil, false_iff]
        rintro ⟨d, hd, hp⟩
        obtain ⟨rfl, -⟩ := List.cons.inj hd
        exact hc hp

@[simp] theorem mem_many :
    u ∈ (many p).rests t ↔ ∃ run, t = run ++ u ∧ Consists p run :=
  mem_behindRuns

@[simp] theorem mem_optional : u ∈ (optional r).rests t ↔ u ∈ r.rests t ∨ t = u := by
  rw [rests, List.mem_append, List.mem_singleton, eq_comm (a := u)]

@[simp] theorem mem_sequence : u ∈ (r ++ s).rests t ↔ ∃ v ∈ r.rests t, u ∈ s.rests v :=
  List.mem_flatMap

@[simp] theorem mem_oneOrMore :
    u ∈ (oneOrMore p).rests t ↔ ∃ run, t = run ++ u ∧ run ≠ [] ∧ Consists p run := by
  rw [oneOrMore, mem_sequence]
  simp only [mem_one, mem_many]
  constructor
  · rintro ⟨v, ⟨c, rfl, hc⟩, run, rfl, hrun⟩
    exact ⟨c :: run, rfl, by simp, List.forall_mem_cons.mpr ⟨hc, hrun⟩⟩
  · rintro ⟨run, rfl, hne, hrun⟩
    obtain ⟨c, run, rfl⟩ := List.exists_cons_of_ne_nil hne
    obtain ⟨hc, hall⟩ := List.forall_mem_cons.mp hrun
    exact ⟨run ++ u, ⟨c, rfl, hc⟩, run, rfl, hall⟩

@[simp] theorem mem_wordEnd : u ∈ wordEnd.rests t ↔ t = u ∧ Parts isWordChar t := by
  cases t with
  | nil =>
      rw [rests, List.mem_singleton, eq_comm, and_iff_left]
      simp [Parts]
  | cons c t =>
      have hparts : Parts isWordChar (c :: t) ↔ isWordChar c = false := by simp [Parts]
      rw [rests, hparts]
      split
      · rename_i hc
        simp [hc]
      · rename_i hc
        rw [List.mem_singleton, eq_comm, and_iff_left (Bool.eq_false_iff.mpr hc)]

end Membership

section Preferred

variable {p : Char → Bool} {r s r' : Pattern} {t : Text}

theorem after?_many : (many p).after? t = some (t.dropWhile p) :=
  head?_behindRuns p t

theorem after?_literal (w : Text) : (literal w).after? t = afterPrefix? w t := by
  rw [after?, rests]
  cases afterPrefix? w t <;> rfl

theorem after?_assoc : (r ++ s ++ r').after? t = (r ++ (s ++ r')).after? t := by
  show (((r.rests t).flatMap s.rests).flatMap r'.rests).head? =
    ((r.rests t).flatMap fun u => (s.rests u).flatMap r'.rests).head?
  rw [List.flatMap_assoc]

theorem after?_either : (either r s).after? t = (r.after? t).or (s.after? t) :=
  List.head?_append

theorem after?_optional_sequence :
    (optional r ++ s).after? t = ((r ++ s).after? t).or (s.after? t) := by
  show ((r.rests t ++ [t]).flatMap s.rests).head? = _
  rw [List.flatMap_append, List.head?_append, List.flatMap_singleton]
  rfl

theorem after?_literal_sequence (w : Text) :
    (literal w ++ s).after? t = (afterPrefix? w t).bind s.after? := by
  show ((afterPrefix? w t).toList.flatMap s.rests).head? = _
  cases afterPrefix? w t with
  | none => rfl
  | some rest => simp [after?]

theorem after?_one_sequence_nil : (one p ++ s).after? [] = none := rfl

theorem after?_one_sequence_cons (c : Char) (t : Text) :
    (one p ++ s).after? (c :: t) = if p c then s.after? t else none := by
  show ((rests (one p) (c :: t)).flatMap s.rests).head? = _
  rw [rests]
  split
  · rw [List.flatMap_singleton]
    rfl
  · rfl

theorem after?_oneOrMore_iff {rest : Text} :
    (oneOrMore p).after? t = some rest ↔
      ∃ c u, t = c :: u ∧ p c = true ∧ u.dropWhile p = rest := by
  cases t with
  | nil => simp [oneOrMore, after?_one_sequence_nil]
  | cons c t => simp [oneOrMore, after?_one_sequence_cons, after?_many]

theorem after?_literal_ahead_iff {w rest : Text} :
    (literal w ++ ahead r).after? t = some rest ↔
      t = w ++ rest ∧ ∃ u, u ∈ r.rests rest := by
  rw [after?_literal_sequence, Option.bind_eq_some_iff]
  simp only [afterPrefix?_eq_some_iff]
  constructor
  · rintro ⟨v, rfl, hv⟩
    rw [after?, rests] at hv
    split at hv
    · simp at hv
    · rename_i hne
      obtain rfl : v = rest := by simpa using hv
      exact ⟨rfl, List.exists_mem_of_ne_nil _ hne⟩
  · rintro ⟨rfl, u, hu⟩
    refine ⟨rest, rfl, ?_⟩
    rw [after?, rests, if_neg (List.ne_nil_of_mem hu)]
    rfl

end Preferred

end Pattern

end ScriptWeave.Header
