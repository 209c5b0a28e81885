import Mathlib.Data.List.Basic
import ScriptWeave.Text.Number

namespace ScriptWeave.Text

theorem digitValue?_of_isDigit {c : Char} (h : c.isDigit = true) :
    digitValue? c = some (c.toNat - '0'.toNat) := by
  obtain ⟨hlow, hhigh⟩ : 48 ≤ c.toNat ∧ c.toNat ≤ 57 := Char.isDigit_iff_toNat.mp h
  obtain ⟨others, hzeros⟩ : ∃ others, decimalZeros = 48 :: others := ⟨_, rfl⟩
  rw [digitValue?, hzeros, List.find?_cons_of_pos]
  · rfl
  · rw [Bool.and_eq_true, decide_eq_true_eq, decide_eq_true_eq]
    omega

theorem isDecimal_of_isDigit {c : Char} (h : c.isDigit = true) : isDecimal c = true := by
  rw [isDecimal, digitValue?_of_isDigit h]
  rfl

theorem isDigit_of_mem_ofNat {n : Nat} {c : Char} (h : c ∈ ofNat n) : c.isDigit = true :=
  Nat.isDigit_of_mem_toDigits (by decide) (by decide) h

theorem isDecimal_of_mem_ofNat {n : Nat} {c : Char} (h : c ∈ ofNat n) : isDecimal c = true :=
  isDecimal_of_isDigit (isDigit_of_mem_ofNat h)

theorem ofNat_ne_nil (n : Nat) : ofNat n ≠ [] :=
  Nat.toDigits_ne_nil

theorem decimalValue_ofNat (n : Nat) : decimalValue (ofNat n) = n := by
  have hfold : decimalValue (ofNat n) = Nat.ofDigitChars 10 (ofNat n) 0 := by
    rw [Nat.ofDigitChars_eq_foldl, decimalValue]
    refine List.foldl_ext _ _ 0 fun value c hc => ?_
    rw [digitValue?_of_isDigit (isDigit_of_mem_ofNat hc)]
    rfl
  rw [hfold]
  exact Nat.ofDigitChars_ten_toDigits

theorem readDigits?_ofNat_append (n : Nat) {c : Char} (rest : Text) (hc : isDecimal c = false) :
    readDigits? (ofNat n ++ c :: rest) = some (ofNat n, c :: rest) := by
  have hdigits : (ofNat n ++ c :: rest).takeWhile isDecimal = ofNat n := by
    rw [List.takeWhile_append_of_pos fun d hd => isDecimal_of_mem_ofNat hd,
      List.takeWhile_cons_of_neg (by simp [hc]), List.append_nil]
  have hrest : (ofNat n ++ c :: rest).dropWhile isDecimal = c :: rest := by
    rw [List.dropWhile_append_of_pos fun d hd => isDecimal_of_mem_ofNat hd,
      List.dropWhile_cons_of_neg (by simp [hc])]
  rw [readDigits?, hdigits, hrest]
  cases hn : ofNat n with
  | nil => exact absurd hn (ofNat_ne_nil n)
  | cons d digits => rfl

end ScriptWeave.Text
