import Mathlib.Data.List.Basic
import ScriptWeave.Json.Reader

namespace ScriptWeave.Json

theorem hexValue?_digitChar {n : Nat} (h : n < 16) : hexValue? (Nat.digitChar n) = some n := by
  have hall : ∀ n, n < 16 → hexValue? (Nat.digitChar n) = some n := by decide
  exact hall n h

theorem readUnit?_hexUnit {n : Nat} (h : n < 0x10000) (rest : Text) :
    readUnit? (hexUnit n ++ rest) = some (n, rest) := by
  have hdigit : ∀ m, hexValue? (Nat.digitChar (m % 16)) = some (m % 16) :=
    fun m => hexValue?_digitChar (Nat.mod_lt m (by decide))
  have hvalue : ((n / 4096 % 16 * 16 + n / 256 % 16) * 16 + n / 16 % 16) * 16 + n % 16 = n := by
    omega
  show (do
    let a ← hexValue? (Nat.digitChar (n / 4096 % 16))
    let b ← hexValue? (Nat.digitChar (n / 256 % 16))
    let c ← hexValue? (Nat.digitChar (n / 16 % 16))
    let d ← hexValue? (Nat.digitChar (n % 16))
    return (((a * 16 + b) * 16 + c) * 16 + d, rest)) = some (n, rest)
  simp only [hdigit, Option.bind_eq_bind, Option.bind_some, Option.pure_def, hvalue]

theorem toNat_not_surrogate (c : Char) : ¬ (0xD800 ≤ c.toNat ∧ c.toNat < 0xE000) := by
  have hvalid : c.toNat < 0xD800 ∨ (0xDFFF < c.toNat ∧ c.toNat < 0x110000) := c.valid
  omega

theorem charOfUnit_toNat (c : Char) : charOfUnit c.toNat = c := by
  rw [charOfUnit, if_neg (toNat_not_surrogate c), Char.ofNat_toNat]

/-- What comes out in front of the rest of a text in quotes. -/
def behind (c : Char) (result : Except ReadFault (Text × Text)) : Except ReadFault (Text × Text) :=
  result.map fun (cs, rest) => (c :: cs, rest)

variable {start rest : Text} {fuel : Nat} {c : Char}

theorem readChars_unit (hc : c.toNat < 0x10000) (hrest : rest ≠ []) :
    readChars start (fuel + 1) ('\\' :: 'u' :: (hexUnit c.toNat ++ rest)) =
      behind c (readChars start fuel rest) := by
  rw [readChars]
  simp only [readUnit?_hexUnit hc]
  split
  · rename_i hnone
    simp at hnone
  · rename_i hempty
    simp at hempty
    exact absurd hempty.2 hrest
  · rename_i high low hpair
    obtain ⟨rfl, rfl⟩ := Prod.mk.inj (Option.some.inj hpair)
    have hsurrogate := toNat_not_surrogate c
    rw [if_neg (by omega), charOfUnit_toNat]
    rfl
  · rename_i hunit
    obtain ⟨rfl, rfl⟩ := Prod.mk.inj (Option.some.inj hunit)
    rw [charOfUnit_toNat]
    rfl

theorem readChars_pair (hc : ¬ c.toNat < 0x10000) (hrest : rest ≠ []) :
    readChars start (fuel + 1) ('\\' :: 'u' :: (hexUnit (0xD800 + (c.toNat - 0x10000) / 0x400) ++
        '\\' :: 'u' :: (hexUnit (0xDC00 + (c.toNat - 0x10000) % 0x400) ++ rest))) =
      behind c (readChars start fuel rest) := by
  have hvalid : c.toNat < 0xD800 ∨ (0xDFFF < c.toNat ∧ c.toNat < 0x110000) := c.valid
  have hlength := List.length_pos_iff.mpr hrest
  have hback : 0x10000 + (0xD800 + (c.toNat - 0x10000) / 0x400 - 0xD800) * 0x400 +
      (0xDC00 + (c.toNat - 0x10000) % 0x400 - 0xDC00) = c.toNat := by
    omega
  rw [readChars]
  simp only [readUnit?_hexUnit (show 0xD800 + (c.toNat - 0x10000) / 0x400 < 0x10000 by omega),
    readUnit?_hexUnit (show 0xDC00 + (c.toNat - 0x10000) % 0x400 < 0x10000 by omega)]
  rw [if_pos ⟨by omega, by omega, by simp [hexUnit]; omega⟩, if_pos ⟨by omega, by omega⟩, hback,
    Char.ofNat_toNat]
  rfl

theorem readChars_plain (hquote : c ≠ '"') (hescape : c ≠ '\\') (hprintable : 0x20 ≤ c.toNat) :
    readChars start (fuel + 1) (c :: rest) = behind c (readChars start fuel rest) := by
  rw [readChars]
  · rw [if_neg (by omega)]
    rfl
  all_goals simp [hquote, hescape]

theorem readChars_writeChar (c : Char) (hrest : rest ≠ []) :
    readChars start (fuel + 1) (writeChar c ++ rest) = behind c (readChars start fuel rest) := by
  unfold writeChar
  split_ifs with hquote hescape hfeed hreturn htab hback hpage hprintable hunit
  · exact hquote ▸ rfl
  · exact hescape ▸ rfl
  · exact hfeed ▸ rfl
  · exact hreturn ▸ rfl
  · exact htab ▸ rfl
  · exact hback ▸ rfl
  · exact hpage ▸ rfl
  · exact readChars_plain hquote hescape hprintable.1
  · exact readChars_unit hunit hrest
  · rw [← readChars_pair hunit hrest]
    simp only [List.append_assoc]
    rfl

theorem length_writeChar_pos (c : Char) : 0 < (writeChar c).length := by
  unfold writeChar
  split_ifs <;> simp

theorem readChars_writeText {t : Text} (hfuel : t.length < fuel) :
    readChars start fuel (t.flatMap writeChar ++ '"' :: rest) = .ok (t, rest) := by
  induction t generalizing fuel with
  | nil =>
      cases fuel with
      | zero => simp at hfuel
      | succ fuel => rfl
  | cons c t ih =>
      cases fuel with
      | zero => simp at hfuel
      | succ fuel =>
          rw [List.flatMap_cons, List.append_assoc, readChars_writeChar c (by simp),
            ih (Nat.lt_of_succ_lt_succ hfuel)]
          rfl

theorem length_le_flatMap_writeChar (t : Text) : t.length ≤ (t.flatMap writeChar).length := by
  induction t with
  | nil => exact Nat.zero_le _
  | cons c t ih =>
      have hc := length_writeChar_pos c
      rw [List.flatMap_cons, List.length_append, List.length_cons]
      omega

theorem readText_flatMap (t : Text) :
    readText start (t.flatMap writeChar ++ '"' :: rest) = .ok (t, rest) := by
  apply readChars_writeText
  have hlength := length_le_flatMap_writeChar t
  simp only [List.length_append, List.length_cons]
  omega

end ScriptWeave.Json
