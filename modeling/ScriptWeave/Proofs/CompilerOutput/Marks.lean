import Mathlib.Data.List.Infix
import ScriptWeave.CompilerOutput
import ScriptWeave.Proofs.Blanks
import ScriptWeave.Proofs.Header.Pattern

namespace ScriptWeave

open Text Header

namespace Header.Pattern

variable {x : Char} {r : Pattern} {t u : Text}

/-- The pattern looks at nothing but the characters that it takes, and takes none that is `x`. -/
def avoids (x : Char) : Pattern → Bool
  | literal w => !w.contains x
  | one p | many p | few p => !p x
  | optional r => r.avoids x
  | sequence r s | either r s => r.avoids x && s.avoids x
  | ahead _ | wordEnd => false

theorem exists_run_of_mem_behindRuns {p : Char → Bool} (hp : p x = false)
    (h : u ∈ behindRuns p t) :
    ∃ run, t = run ++ u ∧ x ∉ run ∧ ∀ v, v ∈ behindRuns p (run ++ v) := by
  obtain ⟨run, rfl, hrun⟩ := mem_behindRuns.mp h
  refine ⟨run, rfl, fun hx => ?_, fun v => mem_behindRuns.mpr ⟨run, rfl, hrun⟩⟩
  simp [hrun x hx] at hp

theorem exists_run_of_mem (hr : r.avoids x = true) (h : u ∈ r.rests t) :
    ∃ run, t = run ++ u ∧ x ∉ run ∧ ∀ v, v ∈ r.rests (run ++ v) := by
  induction r generalizing t u with
  | literal w =>
      have hx : x ∉ w := by simpa [avoids] using hr
      exact ⟨w, mem_literal.mp h, hx, fun v => mem_literal.mpr rfl⟩
  | one p =>
      obtain ⟨c, rfl, hc⟩ := mem_one.mp h
      refine ⟨[c], rfl, fun hx => ?_, fun v => mem_one.mpr ⟨c, rfl, hc⟩⟩
      obtain rfl := List.mem_singleton.mp hx
      simp [avoids, hc] at hr
  | many p => exact exists_run_of_mem_behindRuns (by simpa [avoids] using hr) h
  | few p =>
      have hp : p x = false := by simpa [avoids] using hr
      obtain ⟨run, ht, hx, hall⟩ := exists_run_of_mem_behindRuns hp (List.mem_reverse.mp h)
      exact ⟨run, ht, hx, fun v => List.mem_reverse.mpr (hall v)⟩
  | optional r ih =>
      rcases mem_optional.mp h with hmem | rfl
      · obtain ⟨run, ht, hx, hall⟩ := ih hr hmem
        exact ⟨run, ht, hx, fun v => mem_optional.mpr (.inl (hall v))⟩
      · exact ⟨[], rfl, List.not_mem_nil, fun v => mem_optional.mpr (.inr rfl)⟩
  | sequence r s ihr ihs =>
      obtain ⟨hfirst, hsecond⟩ := Bool.and_eq_true_iff.mp hr
      obtain ⟨v, hv, hu⟩ := List.mem_flatMap.mp h
      obtain ⟨front, rfl, hx, hall⟩ := ihr hfirst hv
      obtain ⟨back, rfl, hx', hall'⟩ := ihs hsecond hu
      refine ⟨front ++ back, (List.append_assoc _ _ _).symm, by simp [hx, hx'], fun v => ?_⟩
      rw [List.append_assoc]
      exact List.mem_flatMap.mpr ⟨back ++ v, hall _, hall' v⟩
  | either r s ihr ihs =>
      obtain ⟨hfirst, hsecond⟩ := Bool.and_eq_true_iff.mp hr
      rcases List.mem_append.mp h with hmem | hmem
      · obtain ⟨run, ht, hx, hall⟩ := ihr hfirst hmem
        exact ⟨run, ht, hx, fun v => List.mem_append.mpr (.inl (hall v))⟩
      · obtain ⟨run, ht, hx, hall⟩ := ihs hsecond hmem
        exact ⟨run, ht, hx, fun v => List.mem_append.mpr (.inr (hall v))⟩
  | ahead r ih => simp [avoids] at hr
  | wordEnd => simp [avoids] at hr

def Occurs (r : Pattern) (t : Text) : Prop := ∃ front back rest, t = front ++ back ∧ rest ∈ r.rests back

def Ends (r : Pattern) (t : Text) : Prop := ∃ front back, t = front ++ back ∧ [] ∈ r.rests back

def Begins (r : Pattern) (t : Text) : Prop := ∃ rest, rest ∈ r.rests t

instance (r : Pattern) (t : Text) : Decidable (r.Begins t) :=
  decidable_of_iff (r.rests t ≠ [])
    ⟨List.exists_mem_of_ne_nil _, fun ⟨_, hrest⟩ => List.ne_nil_of_mem hrest⟩

instance (r : Pattern) (t : Text) : Decidable (r.Occurs t) :=
  decidable_of_iff (∃ back ∈ t.tails, r.Begins back) <| by
    constructor
    · rintro ⟨back, hback, rest, hrest⟩
      obtain ⟨front, rfl⟩ := (List.mem_tails _ _).mp hback
      exact ⟨front, back, rest, rfl, hrest⟩
    · rintro ⟨front, back, rest, rfl, hrest⟩
      exact ⟨back, (List.mem_tails _ _).mpr ⟨front, rfl⟩, rest, hrest⟩

instance (r : Pattern) (t : Text) : Decidable (r.Ends t) :=
  decidable_of_iff (∃ back ∈ t.tails, [] ∈ r.rests back) <| by
    constructor
    · rintro ⟨back, hback, hend⟩
      obtain ⟨front, rfl⟩ := (List.mem_tails _ _).mp hback
      exact ⟨front, back, rfl, hend⟩
    · rintro ⟨front, back, rfl, hend⟩
      exact ⟨back, (List.mem_tails _ _).mpr ⟨front, rfl⟩, hend⟩

theorem Begins.occurs (h : r.Begins u) (front : Text) : r.Occurs (front ++ u) := by
  obtain ⟨rest, hrest⟩ := h
  exact ⟨front, u, rest, rfl, hrest⟩

theorem Occurs.append_left (h : r.Occurs u) (front : Text) : r.Occurs (front ++ u) := by
  obtain ⟨front', back, rest, rfl, hrest⟩ := h
  exact ⟨front ++ front', back, rest, (List.append_assoc _ _ _).symm, hrest⟩

theorem begins_of_begins_append {back more : Text} (hr : r.avoids x = true) (hback : back ≠ [])
    (h : (literal [x] ++ r).Begins (back ++ x :: more)) : (literal [x] ++ r).Begins back := by
  obtain ⟨rest, hrest⟩ := h
  obtain ⟨behind, hliteral, hmem⟩ := mem_sequence.mp hrest
  rw [mem_literal, List.singleton_append] at hliteral
  obtain ⟨c, back, rfl⟩ := List.exists_cons_of_ne_nil hback
  obtain ⟨rfl, hbehind⟩ := List.cons.inj hliteral
  obtain ⟨run, rfl, hx, hall⟩ := exists_run_of_mem hr hmem
  rcases List.append_eq_append_iff.mp hbehind with ⟨between, rfl, htail⟩ | ⟨between, rfl, -⟩
  · cases between with
    | nil => exact ⟨[], mem_sequence.mpr ⟨back, mem_literal.mpr rfl, by simpa using hall []⟩⟩
    | cons d between =>
        obtain ⟨rfl, -⟩ := List.cons.inj htail
        simp at hx
  · exact ⟨between, mem_sequence.mpr ⟨run ++ between, mem_literal.mpr rfl, hall between⟩⟩

end Header.Pattern

namespace CompilerOutput

open Header.Pattern

def digits : Pattern := oneOrMore isDecimal

def blanks : Pattern := many isBlank

def pair : Pattern := digits ++ literal [','] ++ digits

/-- What may stand between the two numbers of a position and its parenthesis, and this. -/
def rangeEnd : Pattern := optional (literal [','] ++ pair) ++ literal [')']

def colon : Pattern := blanks ++ literal [':']

def positionMark : Pattern := literal ['('] ++ (pair ++ rangeEnd ++ colon)

def severityWord : Pattern := either (literal "error") (either (literal "warning") (literal "info"))

def verdictMark (code : Pattern) : Pattern := severityWord ++ oneOrMore isBlank ++ code ++ colon

def wordCode : Pattern := oneOrMore isWordChar

def numberedCode : Pattern := oneOrMore isAsciiLetter ++ digits

def locatedMark : Pattern := positionMark ++ blanks ++ verdictMark wordCode

def projectMark : Pattern :=
  oneOrMore isBlank ++ literal ['['] ++ oneOrMore (· != ']') ++ literal ['.'] ++
    oneOrMore isWordChar ++ literal "proj]"

/-! ### What is read has the marks -/

section Readers

variable {t rest code : Text}

theorem mem_oneOrMore_dropWhile {p : Char → Bool} (h : t.takeWhile p ≠ []) :
    t.dropWhile p ∈ (oneOrMore p).rests t :=
  mem_oneOrMore.mpr ⟨_, List.takeWhile_append_dropWhile.symm, h, consists_takeWhile p t⟩

theorem trimStart_mem_blanks (t : Text) : trimStart t ∈ blanks.rests t :=
  mem_many.mpr ⟨_, List.takeWhile_append_dropWhile.symm, consists_takeWhile isBlank t⟩

theorem mem_of_readDigits? {number : Text} (h : readDigits? t = some (number, rest)) :
    rest ∈ digits.rests t := by
  rw [readDigits?] at h
  split at h
  · simp at h
  · rename_i hne
    obtain ⟨-, rfl⟩ := Prod.mk.inj (Option.some.inj h)
    exact mem_oneOrMore_dropWhile hne

theorem mem_of_readPair? {numbers : Text × Text} (h : readPair? t = some (numbers, rest)) :
    rest ∈ pair.rests t := by
  simp only [readPair?, bind, Option.bind_eq_some_iff, pure, Option.some.injEq, Prod.mk.injEq] at h
  obtain ⟨⟨first, u⟩, hfirst, v, hcomma, ⟨second, w⟩, hsecond, -, rfl⟩ := h
  rw [afterPrefix?_eq_some_iff] at hcomma
  exact mem_sequence.mpr ⟨v, mem_sequence.mpr ⟨u, mem_of_readDigits? hfirst, mem_literal.mpr hcomma⟩,
    mem_of_readDigits? hsecond⟩

theorem mem_of_afterRangeEnd? (h : afterRangeEnd? t = some rest) : rest ∈ rangeEnd.rests t := by
  rw [afterRangeEnd?] at h
  split at h
  · rename_i hclose
    obtain rfl := Option.some.inj h
    rw [afterPrefix?_eq_some_iff] at hclose
    exact mem_sequence.mpr ⟨t, mem_optional.mpr (.inr rfl), mem_literal.mpr hclose⟩
  · simp only [bind, Option.bind_eq_some_iff] at h
    obtain ⟨u, hcomma, ⟨numbers, v⟩, hpair, hclose⟩ := h
    rw [afterPrefix?_eq_some_iff] at hcomma hclose
    have hend : v ∈ (literal [','] ++ pair).rests t :=
      mem_sequence.mpr ⟨u, mem_literal.mpr hcomma, mem_of_readPair? hpair⟩
    exact mem_sequence.mpr ⟨v, mem_optional.mpr (.inl hend), mem_literal.mpr hclose⟩

theorem mem_of_afterColon? (h : afterColon? t = some rest) :
    ∃ u ∈ colon.rests t, rest = trimStart u := by
  rw [afterColon?, Option.map_eq_some_iff] at h
  obtain ⟨u, hcolon, rfl⟩ := h
  rw [afterPrefix?_eq_some_iff] at hcolon
  exact ⟨u, mem_sequence.mpr ⟨_, trimStart_mem_blanks t, mem_literal.mpr hcolon⟩, rfl⟩

theorem mem_of_readSeverity? {severity : Severity} (h : readSeverity? t = some (severity, rest)) :
    rest ∈ severityWord.rests t := by
  rw [readSeverity?] at h
  simp only [severityWord, rests, List.mem_append, Option.mem_toList]
  split at h
  · rename_i hread
    obtain ⟨-, rfl⟩ := Prod.mk.inj (Option.some.inj h)
    exact .inl hread
  · rename_i hread _
    obtain ⟨-, rfl⟩ := Prod.mk.inj (Option.some.inj h)
    exact .inr (.inl hread)
  · rename_i hread _ _
    obtain ⟨-, rfl⟩ := Prod.mk.inj (Option.some.inj h)
    exact .inr (.inr hread)
  · simp at h

theorem mem_of_afterBlanks? (h : afterBlanks? t = some rest) :
    rest ∈ (oneOrMore isBlank).rests t := by
  cases t with
  | nil => simp [afterBlanks?] at h
  | cons c t =>
      rw [afterBlanks?] at h
      split at h
      · rename_i hc
        obtain rfl := Option.some.inj h
        exact mem_sequence.mpr ⟨t, mem_one.mpr ⟨c, rfl, hc⟩, trimStart_mem_blanks t⟩
      · simp at h

theorem mem_of_readCode? (h : readCode? t = some (code, rest)) : rest ∈ wordCode.rests t := by
  rw [readCode?] at h
  split at h
  · simp at h
  · rename_i hne
    obtain ⟨-, rfl⟩ := Prod.mk.inj (Option.some.inj h)
    exact mem_oneOrMore_dropWhile hne

theorem mem_of_readNumberedCode? (h : readNumberedCode? t = some (code, rest)) :
    rest ∈ numberedCode.rests t := by
  rw [readNumberedCode?] at h
  split at h
  · simp at h
  · rename_i hne
    obtain ⟨⟨number, u⟩, hdigits, hpair⟩ := Option.map_eq_some_iff.mp h
    obtain ⟨-, rfl⟩ := Prod.mk.inj hpair
    exact mem_sequence.mpr ⟨_, mem_oneOrMore_dropWhile hne, mem_of_readDigits? hdigits⟩

theorem begins_of_readVerdict? {readCode : Text → Option (Text × Text)} {codeMark : Pattern}
    {verdict : Verdict}
    (hcode : ∀ t code rest, readCode t = some (code, rest) → rest ∈ codeMark.rests t)
    (h : readVerdict? readCode t = some verdict) : (verdictMark codeMark).Begins t := by
  simp only [readVerdict?, bind, Option.bind_eq_some_iff] at h
  obtain ⟨⟨severity, u⟩, hseverity, v, hblanks, ⟨code, w⟩, hread, _, hcolon, -⟩ := h
  obtain ⟨rest, hrest, -⟩ := mem_of_afterColon? hcolon
  have hword := mem_sequence.mpr ⟨u, mem_of_readSeverity? hseverity, mem_of_afterBlanks? hblanks⟩
  exact ⟨rest, mem_sequence.mpr ⟨w, mem_sequence.mpr ⟨v, hword, hcode _ _ _ hread⟩, hrest⟩⟩

theorem begins_of_readPosition? {found : (Text × Text) × Verdict} (h : readPosition? t = some found) :
    locatedMark.Begins t := by
  unfold readPosition? at h
  split at h
  · rename_i t
    simp only [bind, Option.bind_eq_some_iff] at h
    obtain ⟨⟨numbers, u⟩, hpair, v, hend, w, hcolon, verdict, hverdict, -⟩ := h
    obtain ⟨behind, hbehind, rfl⟩ := mem_of_afterColon? hcolon
    obtain ⟨rest, hrest⟩ := begins_of_readVerdict? (fun _ _ _ => mem_of_readCode?) hverdict
    have hnumbers := mem_sequence.mpr ⟨u, mem_of_readPair? hpair, mem_of_afterRangeEnd? hend⟩
    have htail := mem_sequence.mpr ⟨v, hnumbers, hbehind⟩
    have hposition : behind ∈ positionMark.rests ('(' :: t) :=
      mem_sequence.mpr ⟨t, mem_literal.mpr rfl, htail⟩
    exact ⟨rest, mem_sequence.mpr
      ⟨_, mem_sequence.mpr ⟨behind, hposition, trimStart_mem_blanks behind⟩, hrest⟩⟩
  · simp at h

theorem Begins.of_locatedMark (h : locatedMark.Begins t) : positionMark.Begins t := by
  obtain ⟨rest, hrest⟩ := h
  obtain ⟨_, hmem, -⟩ := mem_sequence.mp hrest
  obtain ⟨u, hposition, -⟩ := mem_sequence.mp hmem
  exact ⟨u, hposition⟩

theorem readLocated?_of_not_occurs (h : ¬ locatedMark.Occurs t) (file : Text) :
    readLocated? file t = none := by
  induction t generalizing file with
  | nil => rfl
  | cons c t ih =>
      rw [readLocated?]
      split
      · rename_i hread
        exact absurd ((begins_of_readPosition? hread).occurs []) h
      · exact ih (fun hoccurs => h (hoccurs.append_left [c])) (c :: file)

/-! ### The project file -/

theorem mem_of_isProjectMark {mark : Text} (h : isProjectMark mark = true) :
    ∃ name extension, mark = '[' :: (name ++ '.' :: (extension ++ "proj]".toList)) ∧ name ≠ [] ∧
      ']' ∉ name ∧ extension ≠ [] ∧ Consists isWordChar extension := by
  unfold isProjectMark at h
  split at h
  · rename_i rest
    split at h
    · rename_i backward hreverse
      split at h
      · rename_i c more dot x others hproject hdrop
        rw [afterPrefix?_eq_some_iff] at hproject
        rw [Bool.and_eq_true, List.all_eq_true, decide_eq_true_eq] at h
        have hdot : dot = '.' := by
          have hhead := parts_dropWhile (fun c => decide (c ≠ '.')) backward dot (by rw [hdrop]; rfl)
          simpa using hhead
        have hbackward : backward = "jorp".toList ++ c :: more ++ '.' :: x :: others := by
          rw [← hdot, ← hproject, ← hdrop, List.takeWhile_append_dropWhile]
        have hrest : rest = (']' :: backward).reverse := by rw [← hreverse, List.reverse_reverse]
        refine ⟨(x :: others).reverse, (c :: more).reverse, ?_, by simp, ?_, by simp, ?_⟩
        · rw [hrest, hbackward]
          simp
        · intro hmem
          apply h.2
          rw [hbackward]
          simp only [List.mem_reverse] at hmem
          simp [hmem]
        · intro d hd
          exact h.1 d (List.mem_reverse.mp hd)
      · simp at h
    · simp at h
  · simp at h

theorem ends_of_isProjectMark {c : Char} (hc : isBlank c = true)
    (h : isProjectMark (trimStart t) = true) : [] ∈ projectMark.rests (c :: t) := by
  obtain ⟨name, extension, hmark, hname, hclose, hextension, hword⟩ := mem_of_isProjectMark h
  have hblanks : trimStart t ∈ (oneOrMore isBlank).rests (c :: t) :=
    mem_sequence.mpr ⟨t, mem_one.mpr ⟨c, rfl, hc⟩, trimStart_mem_blanks t⟩
  have hinside : Consists (· != ']') name := by
    intro d hd
    rw [bne_iff_ne]
    rintro rfl
    exact hclose hd
  rw [hmark] at hblanks
  simp only [projectMark, mem_sequence]
  refine ⟨"proj]".toList, ⟨extension ++ "proj]".toList, ⟨'.' :: (extension ++ "proj]".toList),
    ⟨name ++ '.' :: (extension ++ "proj]".toList), ⟨_, hblanks, ?_⟩, ?_⟩, ?_⟩, ?_⟩, ?_⟩
  · exact mem_literal.mpr rfl
  · exact mem_oneOrMore.mpr ⟨name, rfl, hname, hinside⟩
  · exact mem_literal.mpr rfl
  · exact mem_oneOrMore.mpr ⟨extension, rfl, hextension, hword⟩
  · exact mem_literal.mpr (List.append_nil _).symm

theorem dropProjectMark_of_not_ends (h : ¬ projectMark.Ends t) : dropProjectMark t = t := by
  induction t with
  | nil => rfl
  | cons c t ih =>
      have hhere : (isBlank c && isProjectMark (trimStart t)) = false := by
        rw [Bool.eq_false_iff]
        intro hmark
        obtain ⟨hc, hproject⟩ := Bool.and_eq_true_iff.mp hmark
        exact h ⟨[], c :: t, rfl, ends_of_isProjectMark hc hproject⟩
      rw [dropProjectMark, hhere, if_neg (by simp), ih]
      rintro ⟨front, back, rfl, hback⟩
      exact h ⟨c :: front, back, rfl, hback⟩

end Readers

end CompilerOutput

end ScriptWeave
