import ScriptWeave.Proofs.Blanks
import ScriptWeave.Proofs.Header.Lookahead
import ScriptWeave.Text.Lines

namespace ScriptWeave.Text

open Header

structure Tidy (t : Text) : Prop where
  one_line : ∀ c ∈ t, isOutputBreak c = false
  trimmed : trim t = t

instance (t : Text) : Decidable (Tidy t) :=
  decidable_of_iff (t.any isOutputBreak = false ∧ trim t = t)
    ⟨fun ⟨hline, htrim⟩ => ⟨fun c hc => by simpa using List.any_eq_false.mp hline c hc, htrim⟩,
      fun h => ⟨List.any_eq_false.mpr fun c hc => by simp [h.one_line c hc], h.trimmed⟩⟩

theorem trimStart_of_parts {t : Text} (h : Parts isBlank t) : trimStart t = t := by
  have hnone : Consists isBlank [] := fun _ hc => absurd hc List.not_mem_nil
  exact dropWhile_of_parts hnone h

theorem length_trimEnd_le (t : Text) : (trimEnd t).length ≤ t.length := by
  have hsublist : (t.reverse.dropWhile isBlank).length ≤ t.reverse.length :=
    (List.dropWhile_sublist isBlank).length_le
  simpa [trimEnd] using hsublist

namespace Tidy

variable {t : Text}

theorem ends (h : Tidy t) : trimStart t = t ∧ trimEnd t = t := by
  have hlength := congrArg List.length h.trimmed
  have hend := length_trimEnd_le (trimStart t)
  have hsuffix : trimStart t <:+ t := List.dropWhile_suffix _
  have hsame : trimStart t = t := by
    apply hsuffix.eq_of_length_le
    rw [trim] at hlength
    omega
  have htrimmed := h.trimmed
  rw [trim, hsame] at htrimmed
  exact ⟨hsame, htrimmed⟩

theorem parts (h : Tidy t) : Parts isBlank t := by
  have hparts := parts_dropWhile isBlank t
  rwa [show t.dropWhile isBlank = t from h.ends.1] at hparts

theorem trimEnd_space (h : Tidy t) (ht : t ≠ []) : trimEnd (' ' :: t) = ' ' :: t := by
  obtain ⟨c, rest, rfl⟩ := List.exists_cons_of_ne_nil ht
  have hc : isBlank c = false := h.parts c rfl
  have hself : trimEnd (c :: rest) = c :: trimEnd rest := trimEnd_append_cons [] rest hc
  have hspace : trimEnd (' ' :: c :: rest) = ' ' :: c :: trimEnd rest :=
    trimEnd_append_cons [' '] rest hc
  rw [hspace, ← hself, h.ends.2]

theorem trimStart_trimEnd_space (h : Tidy t) : trimStart (trimEnd (' ' :: t)) = t := by
  by_cases ht : t = []
  · rw [ht]
    rfl
  · rw [h.trimEnd_space ht]
    have hspace : trimStart (' ' :: t) = trimStart t := List.dropWhile_cons_of_pos (by decide)
    rw [hspace, h.ends.1]

end Tidy

theorem not_isOutputBreak_ne {c : Char} (h : isOutputBreak c = false) : c ≠ '\r' := by
  rintro rfl
  exact absurd h (by decide)

theorem breakOutput_newline (t : Text) : breakOutput ('\n' :: t) = [] :: breakOutput t := by
  conv => lhs; unfold breakOutput
  split
  · rename_i hnil
    simp at hnil
  · rename_i hcrlf
    simp at hcrlf
  · rename_i hcons
    obtain ⟨rfl, rfl⟩ := List.cons.inj hcons
    rfl

theorem breakOutput_char {c : Char} {t line : Text} {lines : List Text}
    (hc : isOutputBreak c = false) (ht : breakOutput t = line :: lines) :
    breakOutput (c :: t) = (c :: line) :: lines := by
  conv => lhs; unfold breakOutput
  split
  · rename_i hnil
    simp at hnil
  · rename_i hcrlf
    exact absurd (List.cons.inj hcrlf).1 (not_isOutputBreak_ne hc)
  · rename_i hcons
    obtain ⟨rfl, rfl⟩ := List.cons.inj hcons
    rw [hc, ht]
    rfl

theorem breakOutput_of_one_line {line : Text} (h : ∀ c ∈ line, isOutputBreak c = false) :
    breakOutput line = [line] := by
  induction line with
  | nil => rfl
  | cons c line ih =>
      have hrest := ih fun d hd => h d (List.mem_cons_of_mem _ hd)
      exact breakOutput_char (h c List.mem_cons_self) hrest

theorem breakOutput_append_newline {line : Text} (more : Text)
    (h : ∀ c ∈ line, isOutputBreak c = false) :
    breakOutput (line ++ '\n' :: more) = line :: breakOutput more := by
  induction line with
  | nil => exact breakOutput_newline more
  | cons c line ih =>
      have hrest := ih fun d hd => h d (List.mem_cons_of_mem _ hd)
      exact breakOutput_char (h c List.mem_cons_self) hrest

theorem dropLastEmpty_of_filled {lines : List Text} (h : ∀ line ∈ lines, line ≠ []) :
    dropLastEmpty lines = lines := by
  induction lines with
  | nil => rfl
  | cons line lines ih =>
      have hmore := ih fun other hother => h other (List.mem_cons_of_mem _ hother)
      cases lines with
      | nil => rw [dropLastEmpty, if_neg (h line List.mem_cons_self)]
      | cons line' more => rw [dropLastEmpty, hmore]

theorem outputLines_joinWith {lines : List Text}
    (h : ∀ line ∈ lines, line ≠ [] ∧ ∀ c ∈ line, isOutputBreak c = false) :
    outputLines (joinWith ['\n'] lines) = lines := by
  have hbreak : lines ≠ [] → breakOutput (joinWith ['\n'] lines) = lines := by
    induction lines with
    | nil => exact fun hne => absurd rfl hne
    | cons line lines ih =>
        intro _
        have hline := (h line List.mem_cons_self).2
        have hmore := ih fun other hother => h other (List.mem_cons_of_mem _ hother)
        cases lines with
        | nil => exact breakOutput_of_one_line hline
        | cons line' more =>
            rw [joinWith_cons_of_ne_nil _ _ (by simp), List.append_assoc, List.singleton_append,
              breakOutput_append_newline _ hline, hmore (by simp)]
  by_cases hne : lines = []
  · rw [hne]
    rfl
  · rw [outputLines, hbreak hne]
    exact dropLastEmpty_of_filled fun line hline => (h line hline).1

end ScriptWeave.Text
