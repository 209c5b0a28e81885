import Mathlib.Data.List.DropRight
import Mathlib.Data.List.TakeWhile
import ScriptWeave.Text.CharClass

namespace ScriptWeave.Text

theorem trimEnd_append_of_blank (t : Text) {blanks : Text} (h : ∀ c ∈ blanks, isBlank c = true) :
    trimEnd (t ++ blanks) = trimEnd t := by
  have hreverse : ∀ c ∈ blanks.reverse, isBlank c = true := by simpa using h
  rw [trimEnd, List.reverse_append, List.dropWhile_append_of_pos hreverse, trimEnd]

theorem trimEnd_append_cons (front t : Text) {c : Char} (hc : isBlank c = false) :
    trimEnd (front ++ c :: t) = front ++ c :: trimEnd t := by
  rw [trimEnd, List.reverse_append, List.reverse_cons, List.append_assoc, List.dropWhile_append]
  cases hrest : t.reverse.dropWhile isBlank with
  | nil => simp [trimEnd, hrest, hc]
  | cons d rest => simp [trimEnd, hrest]

theorem exists_trimEnd_append (t : Text) :
    ∃ blanks, t = trimEnd t ++ blanks ∧ ∀ c ∈ blanks, isBlank c = true := by
  refine ⟨(t.reverse.takeWhile isBlank).reverse, ?_, ?_⟩
  · rw [trimEnd, ← List.reverse_append, List.takeWhile_append_dropWhile, List.reverse_reverse]
  · intro c hc
    exact List.mem_takeWhile_imp (List.mem_reverse.mp hc)

theorem isBlank_getLast?_trimEnd {t : Text} {c : Char} (h : (trimEnd t).getLast? = some c) :
    isBlank c = false := by
  rw [trimEnd, List.getLast?_reverse] at h
  have hhead := List.head?_dropWhile_not isBlank t.reverse
  simpa [h] using hhead

theorem trimEnd_trimEnd (t : Text) : trimEnd (trimEnd t) = trimEnd t := by
  rw [trimEnd, trimEnd, List.reverse_reverse, List.dropWhile_idempotent]

theorem trimEnd_cons_of_blank {c : Char} (t : Text) (hc : isBlank c = true) :
    trimEnd (c :: t) = if trimEnd t = [] then [] else c :: trimEnd t := by
  rw [trimEnd, trimEnd, List.reverse_cons, List.dropWhile_append]
  cases hrest : t.reverse.dropWhile isBlank with
  | nil => simp [hc]
  | cons d rest => simp

end ScriptWeave.Text
