import ScriptWeave.Proofs.Breaks
import ScriptWeave.Proofs.Json.RoundTrip
import ScriptWeave.Text.Encoding

namespace ScriptWeave

namespace Text

def IsPrintable (c : Char) : Prop := 0x20 ≤ c.toNat ∧ c.toNat < 0x7F

instance (c : Char) : Decidable (IsPrintable c) := inferInstanceAs (Decidable (_ ∧ _))

theorem isPrintable_of_all {t : Text} (h : t.all (IsPrintable ·) = true) : ∀ c ∈ t, IsPrintable c :=
  fun c hc => of_decide_eq_true (List.all_eq_true.mp h c hc)

theorem isPrintable_of_isDigit {c : Char} (h : c.isDigit = true) : IsPrintable c := by
  obtain ⟨hlow, hhigh⟩ : 48 ≤ c.toNat ∧ c.toNat ≤ 57 := Char.isDigit_iff_toNat.mp h
  exact ⟨by omega, by omega⟩

theorem isPrintable_ofInt (n : Int) : ∀ c ∈ ofInt n, IsPrintable c := by
  cases n with
  | ofNat n => exact fun c hc => isPrintable_of_isDigit (isDigit_of_mem_ofNat hc)
  | negSucc n =>
      rw [ofInt, List.forall_mem_cons]
      exact ⟨by decide, fun c hc => isPrintable_of_isDigit (isDigit_of_mem_ofNat hc)⟩

theorem decodeFrom_encode {t : Text} (h : ∀ c ∈ t, IsPrintable c) (offset : Nat) :
    decodeFrom offset (encode t) = .ok t := by
  induction t generalizing offset with
  | nil => rfl
  | cons c t ih =>
      obtain ⟨hc, ht⟩ := List.forall_mem_cons.mp h
      have hlow : c.toNat ≤ 127 := Nat.le_of_lt hc.2
      have hchar : String.utf8EncodeChar c = [UInt8.ofNat c.toNat] := by
        simp [String.utf8EncodeChar, Nat.not_lt.mpr hlow]
      have hvalue : (UInt8.ofNat c.toNat).toNat = c.toNat := by
        rw [UInt8.toNat_ofNat']
        omega
      have hlead : UInt8.ofNat c.toNat < 0x80 := by
        rw [UInt8.lt_iff_toNat_lt, hvalue]
        exact Nat.lt_of_le_of_lt hlow (by decide)
      rw [encode, List.flatMap_cons, ← encode, hchar, List.singleton_append, decodeFrom.eq_def]
      dsimp only
      rw [if_pos hlead, ih ht, hvalue, Char.ofNat_toNat]
      rfl

theorem normalizeBreaks_of_isPrintable {t : Text} (h : ∀ c ∈ t, IsPrintable c) :
    normalizeBreaks t = t := by
  induction t with
  | nil => rfl
  | cons c t ih =>
      obtain ⟨hc, ht⟩ := List.forall_mem_cons.mp h
      have hreturn : c ≠ '\r' := by
        rintro rfl
        exact absurd hc (by decide)
      rw [normalizeBreaks_char t hreturn, ih ht]

end Text

namespace Json

open Text

theorem isPrintable_hexUnit (n : Nat) : ∀ c ∈ hexUnit n, IsPrintable c := by
  have hdigit : ∀ m < 16, IsPrintable (Nat.digitChar m) := by decide
  simp only [hexUnit, List.forall_mem_cons]
  exact ⟨hdigit _ (Nat.mod_lt _ (by decide)), hdigit _ (Nat.mod_lt _ (by decide)),
    hdigit _ (Nat.mod_lt _ (by decide)), hdigit _ (Nat.mod_lt _ (by decide)), by simp⟩

theorem isPrintable_ite {p : Prop} [Decidable p] {s t : Text} (hs : p → ∀ c ∈ s, IsPrintable c)
    (ht : ∀ c ∈ t, IsPrintable c) : ∀ c ∈ if p then s else t, IsPrintable c := by
  split
  · exact hs ‹_›
  · exact ht

theorem isPrintable_writeChar (c : Char) : ∀ d ∈ writeChar c, IsPrintable d := by
  have hunit : ∀ n, ∀ d ∈ "\\u".toList ++ hexUnit n, IsPrintable d := fun n =>
    List.forall_mem_append.mpr ⟨isPrintable_of_all rfl, isPrintable_hexUnit n⟩
  unfold writeChar
  iterate 7 refine isPrintable_ite (fun _ => isPrintable_of_all rfl) ?_
  refine isPrintable_ite (fun hplain => List.forall_mem_singleton.mpr hplain) ?_
  refine isPrintable_ite (fun _ => hunit _) ?_
  dsimp only
  rw [List.append_assoc _ "\\u".toList]
  exact List.forall_mem_append.mpr ⟨hunit _, hunit _⟩

theorem isPrintable_writeText (t : Text) : ∀ c ∈ writeText t, IsPrintable c := by
  refine List.forall_mem_append.mpr ⟨List.forall_mem_append.mpr ⟨isPrintable_of_all rfl, fun c hc => ?_⟩, isPrintable_of_all rfl⟩
  obtain ⟨d, -, hd⟩ := List.mem_flatMap.mp hc
  exact isPrintable_writeChar d c hd

mutual

theorem isPrintable_write : ∀ j : Json, ∀ c ∈ write j, IsPrintable c
  | .null => isPrintable_of_all rfl
  | .bool true => isPrintable_of_all rfl
  | .bool false => isPrintable_of_all rfl
  | .integer n => isPrintable_ofInt n
  | .decimal mantissa exponent => by
      rw [write]
      exact List.forall_mem_append.mpr ⟨List.forall_mem_append.mpr
        ⟨isPrintable_ofInt mantissa, isPrintable_of_all rfl⟩, isPrintable_ofInt exponent⟩
  | .notFinite => isPrintable_of_all rfl
  | .text t => isPrintable_writeText t
  | .array items => by
      rw [write]
      exact List.forall_mem_append.mpr ⟨List.forall_mem_append.mpr
        ⟨isPrintable_of_all rfl, isPrintable_writeItems items⟩, isPrintable_of_all rfl⟩
  | .object fields => by
      rw [write]
      exact List.forall_mem_append.mpr ⟨List.forall_mem_append.mpr
        ⟨isPrintable_of_all rfl, isPrintable_writeFields fields⟩, isPrintable_of_all rfl⟩

theorem isPrintable_writeItems : ∀ items : List Json, ∀ c ∈ writeItems items, IsPrintable c
  | [] => by simp [writeItems]
  | [j] => by
      rw [writeItems]
      exact isPrintable_write j
  | j :: j' :: items => by
      rw [writeItems]
      exact List.forall_mem_append.mpr ⟨List.forall_mem_append.mpr
        ⟨isPrintable_write j, isPrintable_of_all rfl⟩, isPrintable_writeItems (j' :: items)⟩

theorem isPrintable_writeFields :
    ∀ fields : List (Text × Json), ∀ c ∈ writeFields fields, IsPrintable c
  | [] => by simp [writeFields]
  | [(name, j)] => by
      rw [writeFields]
      exact List.forall_mem_append.mpr ⟨List.forall_mem_append.mpr
        ⟨isPrintable_writeText name, isPrintable_of_all rfl⟩, isPrintable_write j⟩
  | (name, j) :: f :: fields => by
      rw [writeFields]
      exact List.forall_mem_append.mpr ⟨List.forall_mem_append.mpr ⟨List.forall_mem_append.mpr
        ⟨List.forall_mem_append.mpr ⟨isPrintable_writeText name, isPrintable_of_all rfl⟩, isPrintable_write j⟩,
        isPrintable_of_all rfl⟩, isPrintable_writeFields (f :: fields)⟩

end

theorem decode_write (j : Json) : decode (encode (write j)) = .ok (write j) :=
  decodeFrom_encode (isPrintable_write j) 0

theorem normalizeBreaks_write (j : Json) : normalizeBreaks (write j) = write j :=
  normalizeBreaks_of_isPrintable (isPrintable_write j)

theorem length_ofNat_of_le {n k : Nat} (hk : 0 < k) (h : Nat.pow 10 k ≤ n) :
    k < (ofNat n).length := by
  by_contra hlength
  exact absurd ((Nat.length_toDigits_le_iff (by decide) hk).mp (Nat.not_lt.mp hlength))
    (Nat.not_lt.mpr h)

theorem readValue_long {n fuel : Nat} {rest : Text} (h : Nat.pow 10 digitLimit ≤ n)
    (hrest : EndsNumber rest) :
    readValue (fuel + 1) (ofNat n ++ rest) = .error (.number (.text (ofNat n).length)) := by
  have hlong : numberOfDigits (ofNat n) = .error (.text (ofNat n).length) :=
    if_neg (Nat.not_le.mpr (length_ofNat_of_le (by decide) h))
  rw [readValue_ofNat, readNumber_digits _ false n hrest, hlong]

theorem read_write_long {n : Nat} (h : Nat.pow 10 digitLimit ≤ n) (name : Text)
    (fields : List (Text × Json)) :
    read (write (.object ((name, .integer n) :: fields))) =
      .error (.number (.text (ofNat n).length)) := by
  have hfields : ∃ rest, EndsNumber rest ∧ writeFields ((name, .integer n) :: fields) ++ ['\x7d'] =
      writeText name ++ ": " ++ (ofNat n ++ rest) := by
    by_cases hlast : fields = []
    · refine ⟨['\x7d'], endsNumber_cons (by decide), ?_⟩
      rw [hlast, writeFields, List.append_assoc]
      rfl
    · refine ⟨',' :: ' ' :: (writeFields fields ++ ['\x7d']), endsNumber_cons (by decide), ?_⟩
      rw [writeFields_cons name _ hlast]
      simp [write, ofInt]
  obtain ⟨rest, hrest, htext⟩ := hfields
  have hwrite : write (.object ((name, .integer n) :: fields)) =
      '\x7b' :: (writeText name ++ ": " ++ (ofNat n ++ rest)) := by
    rw [← htext]
    rfl
  have hfirst : skipSpace (ofNat n ++ rest) = ofNat n ++ rest := skipSpace_write (.integer n) rest
  -- The reader stops in the first field, so that three steps are enough whatever follows it.
  have hread : ∀ fuel, readValue (fuel + 3) (write (.object ((name, .integer n) :: fields))) =
      .error (.number (.text (ofNat n).length)) := by
    intro fuel
    have hrefused : readFields (fuel + 2) (writeText name ++ ": " ++ (ofNat n ++ rest)) =
        .error (.number (.text (ofNat n).length)) := by
      rw [readFields_field, hfirst, readValue_long h hrest]
    rw [writeText_colon] at hrefused
    rw [hwrite, writeText_colon, readValue_object, hrefused]
  have hpos := length_write_pos (.object ((name, .integer n) :: fields))
  obtain ⟨fuel, hfuel⟩ : ∃ fuel,
      2 * (write (.object ((name, .integer n) :: fields))).length + 2 = fuel + 3 :=
    ⟨2 * (write (.object ((name, .integer n) :: fields))).length - 1, by omega⟩
  rw [read]
  · have hskip := skipSpace_write (.object ((name, .integer n) :: fields)) []
    rw [List.append_nil] at hskip
    rw [hskip, hfuel, hread]
  · intro _ hmark
    rw [hwrite] at hmark
    exact absurd (List.cons.inj hmark).1 (by decide)

end Json

end ScriptWeave
