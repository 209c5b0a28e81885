import ScriptWeave.Proofs.Json.Quoted
import ScriptWeave.Proofs.Numeral

namespace ScriptWeave

namespace Text

theorem ofNat_zero_or_head (n : Nat) : ofNat n = ['0'] ∨ (ofNat n).head? ≠ some '0' := by
  induction n using Nat.strongRecOn with
  | ind n ih =>
      have hsmall : ∀ m, m < 10 → [Nat.digitChar m] = ['0'] ∨ [Nat.digitChar m].head? ≠ some '0' := by
        decide
      by_cases hn : n < 10
      · rw [ofNat, Nat.toDigits_of_lt_base hn]
        exact hsmall n hn
      · have hhead : (ofNat n).head? = (ofNat (n / 10)).head? := by
          rw [ofNat, Nat.toDigits_of_base_le (by decide) (Nat.not_lt.mp hn)]
          exact List.head?_append_of_ne_nil _ (ofNat_ne_nil _)
        right
        rw [hhead]
        rcases ih (n / 10) (by omega) with hzero | hhead
        · -- Only zero is written as one zero.
          have hvalue := decimalValue_ofNat (n / 10)
          rw [hzero] at hvalue
          have : n / 10 = 0 := hvalue.symm
          omega
        · exact hhead

theorem length_ofNat_le {n k : Nat} (hk : 0 < k) (h : n < Nat.pow 10 k) : (ofNat n).length ≤ k :=
  (Nat.length_toDigits_le_iff (by decide) hk).mpr h

theorem numberOfDigits_ofNat {n : Nat} (h : n < Nat.pow 10 digitLimit) :
    numberOfDigits (ofNat n) = .ok n := by
  rw [numberOfDigits, if_pos (length_ofNat_le (by decide) h), decimalValue_ofNat]

end Text

namespace Json

open Text

inductive Plain : Json → Prop
  | null : Plain .null
  | bool (b : Bool) : Plain (.bool b)
  | integer {n : Int} (h : isWritable n = true) : Plain (.integer n)
  | text (t : Text) : Plain (.text t)
  | array {items : List Json} (h : ∀ j ∈ items, Plain j) : Plain (.array items)
  | object {fields : List (Text × Json)} (h : ∀ f ∈ fields, Plain f.2) : Plain (.object fields)

def EndsNumber (rest : Text) : Prop :=
  ∀ c, rest.head? = some c → c.isDigit = false ∧ c ≠ '.' ∧ c ≠ 'e' ∧ c ≠ 'E'

theorem endsNumber_cons {c : Char} {rest : Text}
    (h : c.isDigit = false ∧ c ≠ '.' ∧ c ≠ 'e' ∧ c ≠ 'E') : EndsNumber (c :: rest) := by
  intro d hd
  rwa [← Option.some.inj hd]

/-! ### Numbers -/

section Numbers

variable {rest : Text} {n : Nat}

theorem takeWhile_isDigit_ofNat (h : EndsNumber rest) :
    (ofNat n ++ rest).takeWhile Char.isDigit = ofNat n := by
  rw [List.takeWhile_append_of_pos fun c hc => isDigit_of_mem_ofNat hc]
  cases rest with
  | nil => exact List.append_nil _
  | cons c rest =>
      rw [List.takeWhile_cons_of_neg (by simp [(h c rfl).1]), List.append_nil]

theorem readFraction_of_end (h : EndsNumber rest) : readFraction rest = ([], rest) := by
  unfold readFraction
  split
  · exact absurd rfl (h _ rfl).2.1
  · rfl

theorem readExponent?_of_end (h : EndsNumber rest) : readExponent? rest = none := by
  unfold readExponent?
  cases rest with
  | nil => rfl
  | cons c rest =>
      obtain ⟨-, -, hsmall, hcapital⟩ := h c rfl
      exact if_neg (by simp [hsmall, hcapital])

theorem readNumber_digits (start : Text) (negative : Bool) (n : Nat) (hrest : EndsNumber rest) :
    readNumber start negative (ofNat n ++ rest) =
      match numberOfDigits (ofNat n) with
      | .error fault => .error (.number fault)
      | .ok n => .ok (.integer (negateIf negative n), rest) := by
  unfold readNumber
  extract_lets whole
  have hwhole : whole = ofNat n := by
    unfold whole
    split
    · rename_i hzero
      have hfirst := congrArg List.head? hzero
      rw [List.head?_append_of_ne_nil _ (ofNat_ne_nil n)] at hfirst
      exact ((ofNat_zero_or_head n).resolve_right fun hhead => hhead hfirst).symm
    · exact takeWhile_isDigit_ofNat hrest
  rw [hwhole]
  split
  · rename_i hnil
    exact absurd hnil (ofNat_ne_nil n)
  · rw [List.drop_left, readFraction_of_end hrest]
    dsimp only
    exact (readExponent?_of_end hrest).symm ▸ rfl

theorem readNumber_ofNat (start : Text) (negative : Bool) (hn : n < Nat.pow 10 digitLimit)
    (hrest : EndsNumber rest) :
    readNumber start negative (ofNat n ++ rest) = .ok (.integer (negateIf negative n), rest) := by
  rw [readNumber_digits start negative n hrest, numberOfDigits_ofNat hn]

def valueWords : List Text := ["null", "true", "false", "NaN", "Infinity", "-Infinity"]

theorem readWord?_eq_none {t : Text} (h : ∀ word ∈ valueWords, afterPrefix? word t = none) :
    readWord? t = none := by
  simp only [valueWords, List.forall_mem_cons] at h
  obtain ⟨hnull, htrue, hfalse, hnan, hinfinity, hnegative, -⟩ := h
  simp only [readWord?, hnull, htrue, hfalse, hnan, hinfinity, hnegative]
  rfl

theorem afterPrefix?_of_head {lead t : Text} {c : Char} (hlead : lead ≠ [])
    (h : lead.head? ≠ some c) : afterPrefix? lead (c :: t) = none := by
  cases lead with
  | nil => exact absurd rfl hlead
  | cons d lead => exact if_neg fun hd => h (congrArg some hd)

theorem readWord?_of_digit {c : Char} (t : Text) (hc : c.isDigit = true) :
    readWord? (c :: t) = none ∧ readWord? ('-' :: c :: t) = none := by
  have hdigit : ∀ {word : Text}, word.head?.any Char.isDigit = false → word.head? ≠ some c := by
    intro word hword hhead
    simp [hhead, hc] at hword
  constructor
  · apply readWord?_eq_none
    intro word hword
    apply afterPrefix?_of_head
    · rintro rfl
      simp [valueWords] at hword
    · apply hdigit
      revert hword
      revert word
      decide
  · apply readWord?_eq_none
    intro word hword
    cases word with
    | nil => simp [valueWords] at hword
    | cons d word =>
        by_cases hd : d = '-'
        · subst hd
          obtain rfl : word = "Infinity".toList := by
            simpa [valueWords] using hword
          rw [afterPrefix?, if_pos rfl]
          exact afterPrefix?_of_head (by simp) (hdigit rfl)
        · exact if_neg hd

theorem ofInt_eq (n : Int) :
    (ofInt n = ofNat n.natAbs ∧ negateIf false n.natAbs = n) ∨
      (ofInt n = '-' :: ofNat n.natAbs ∧ negateIf true n.natAbs = n) := by
  cases n with
  | ofNat m => exact .inl ⟨rfl, rfl⟩
  | negSucc m => exact .inr ⟨rfl, rfl⟩

end Numbers

/-! ### Values -/

def Begins (c : Char) : Prop := isSpace c = false ∧ c ≠ ']' ∧ c ≠ '\ufeff'

instance (c : Char) : Decidable (Begins c) := inferInstanceAs (Decidable (_ ∧ _ ∧ _))

theorem begins_of_isDigit {c : Char} (hc : c.isDigit = true) : Begins c := by
  have hne : ∀ d : Char, d.isDigit = false → c ≠ d := by
    rintro d hd rfl
    simp [hc] at hd
  refine ⟨?_, hne ']' rfl, hne '\ufeff' rfl⟩
  simp [isSpace, hne ' ' rfl, hne '\t' rfl, hne '\n' rfl, hne '\r' rfl]

theorem ofInt_begins (n : Int) (more : Text) : ∃ c t, ofInt n ++ more = c :: t ∧ Begins c := by
  rcases ofInt_eq n with ⟨hn, -⟩ | ⟨hn, -⟩
  · obtain ⟨c, t, hdigits⟩ := List.exists_cons_of_ne_nil (ofNat_ne_nil n.natAbs)
    have hc : c.isDigit = true := isDigit_of_mem_ofNat (hdigits ▸ List.mem_cons_self)
    exact ⟨c, t ++ more, by rw [hn, hdigits]; rfl, begins_of_isDigit hc⟩
  · exact ⟨'-', ofNat n.natAbs ++ more, by rw [hn]; rfl, by decide⟩

theorem write_begins (j : Json) : ∃ c t, write j = c :: t ∧ Begins c := by
  cases j with
  | null => exact ⟨'n', _, rfl, by decide⟩
  | bool b => cases b <;> exact ⟨_, _, rfl, by decide⟩
  | integer n => simpa only [write, List.append_nil] using ofInt_begins n []
  | decimal mantissa exponent =>
      simpa only [write, List.append_assoc] using ofInt_begins mantissa _
  | notFinite => exact ⟨'N', _, rfl, by decide⟩
  | text t => exact ⟨'"', _, rfl, by decide⟩
  | array items => exact ⟨'[', _, rfl, by decide⟩
  | object fields => exact ⟨'\x7b', _, rfl, by decide⟩

theorem skipSpace_cons {c : Char} (t : Text) (h : isSpace c = false) :
    skipSpace (c :: t) = c :: t :=
  List.dropWhile_cons_of_neg (by simp [h])

theorem skipSpace_space (t : Text) : skipSpace (' ' :: t) = skipSpace t := rfl

theorem skipSpace_write (j : Json) (rest : Text) :
    skipSpace (write j ++ rest) = write j ++ rest := by
  obtain ⟨c, t, hwrite, hc⟩ := write_begins j
  rw [hwrite]
  exact skipSpace_cons _ hc.1

theorem length_write_pos (j : Json) : 0 < (write j).length := by
  obtain ⟨c, t, hwrite, -⟩ := write_begins j
  rw [hwrite]
  exact Nat.succ_pos _

def ReadsBack (j : Json) : Prop :=
  ∀ fuel rest, 2 * (write j).length ≤ fuel → EndsNumber rest →
    readValue fuel (write j ++ rest) = .ok (j, rest)

variable {fuel : Nat} {rest : Text}

theorem readValue_ofNat (n : Nat) (rest : Text) :
    readValue (fuel + 1) (ofNat n ++ rest) = readNumber (ofNat n ++ rest) false (ofNat n ++ rest) := by
  obtain ⟨c, t, hdigits⟩ := List.exists_cons_of_ne_nil (ofNat_ne_nil n)
  have hc : c.isDigit = true := isDigit_of_mem_ofNat (hdigits ▸ List.mem_cons_self)
  have hne : ∀ d : Char, d.isDigit = false → c ≠ d := by
    rintro d hd rfl
    simp [hc] at hd
  rw [hdigits, List.cons_append, readValue, (readWord?_of_digit (t ++ rest) hc).1]
  all_goals exact fun _ hfirst => hne _ rfl (List.cons.inj hfirst).1

theorem readsBack_integer {n : Int} (hn : isWritable n = true) : ReadsBack (.integer n) := by
  intro fuel rest hfuel hrest
  have hpos := length_write_pos (.integer n)
  obtain ⟨fuel, rfl⟩ : ∃ more, fuel = more + 1 := ⟨fuel - 1, by omega⟩
  have hlimit : n.natAbs < Nat.pow 10 digitLimit := of_decide_eq_true hn
  rw [write]
  rcases ofInt_eq n with ⟨hsign, hvalue⟩ | ⟨hsign, hvalue⟩
  · rw [hsign, readValue_ofNat, readNumber_ofNat _ false hlimit hrest, hvalue]
  · obtain ⟨c, t, hdigits⟩ := List.exists_cons_of_ne_nil (ofNat_ne_nil n.natAbs)
    have hc : c.isDigit = true := isDigit_of_mem_ofNat (hdigits ▸ List.mem_cons_self)
    have hread := readNumber_ofNat ('-' :: (ofNat n.natAbs ++ rest)) true hlimit hrest
    rw [hvalue, hdigits] at hread
    rw [hsign, hdigits, List.cons_append, List.cons_append, readValue,
      (readWord?_of_digit (t ++ rest) hc).2]
    exact hread

theorem readsBack_text (t : Text) : ReadsBack (.text t) := by
  intro fuel rest hfuel hrest
  have hpos := length_write_pos (.text t)
  obtain ⟨fuel, rfl⟩ : ∃ more, fuel = more + 1 := ⟨fuel - 1, by omega⟩
  have hwrite : write (.text t) ++ rest = '"' :: (t.flatMap writeChar ++ '"' :: rest) := by
    show '"' :: (t.flatMap writeChar ++ ['"']) ++ rest = _
    simp
  rw [hwrite, readValue, readText_flatMap]

theorem writeItems_cons (j : Json) {items : List Json} (h : items ≠ []) :
    writeItems (j :: items) = write j ++ ", " ++ writeItems items := by
  cases items with
  | nil => exact absurd rfl h
  | cons j' items => rw [writeItems]

theorem writeItems_begins {items : List Json} (h : items ≠ []) :
    ∃ c t, writeItems items = c :: t ∧ Begins c := by
  cases items with
  | nil => exact absurd rfl h
  | cons j items =>
      obtain ⟨c, t, hwrite, hc⟩ := write_begins j
      by_cases hlast : items = []
      · subst hlast
        exact ⟨c, t, hwrite, hc⟩
      · rw [writeItems_cons j hlast, hwrite]
        exact ⟨c, _, rfl, hc⟩

theorem skipSpace_writeItems {items : List Json} (h : items ≠ []) (rest : Text) :
    skipSpace (writeItems items ++ rest) = writeItems items ++ rest := by
  obtain ⟨c, t, hwrite, hc⟩ := writeItems_begins h
  rw [hwrite]
  exact skipSpace_cons _ hc.1

theorem readItems_last {j : Json} {t : Text} (hj : readValue fuel t = .ok (j, ']' :: rest)) :
    readItems (fuel + 1) t = .ok ([j], rest) := by
  simp [readItems, hj, skipSpace_cons, isSpace]

theorem readItems_more {j : Json} {items : List Json} {t more : Text}
    (hj : readValue fuel t = .ok (j, ',' :: ' ' :: more))
    (hmore : readItems fuel (skipSpace more) = .ok (items, rest)) :
    readItems (fuel + 1) t = .ok (j :: items, rest) := by
  simp [readItems, hj, skipSpace_cons, isSpace, skipSpace_space, hmore]

theorem readItems_write {items : List Json} (hitems : ∀ j ∈ items, ReadsBack j) (hne : items ≠ [])
    (hfuel : 2 * (writeItems items).length < fuel) :
    readItems fuel (writeItems items ++ ']' :: rest) = .ok (items, rest) := by
  induction items generalizing fuel with
  | nil => exact absurd rfl hne
  | cons j items ih =>
      obtain ⟨fuel, rfl⟩ : ∃ more, fuel = more + 1 := ⟨fuel - 1, by omega⟩
      have hfirst := hitems j List.mem_cons_self
      by_cases hlast : items = []
      · subst hlast
        rw [writeItems] at hfuel ⊢
        exact readItems_last (hfirst fuel _ (by omega) (endsNumber_cons (by decide)))
      · rw [writeItems_cons j hlast] at hfuel ⊢
        have hparts : write j ++ ", " ++ writeItems items ++ ']' :: rest =
            write j ++ ',' :: ' ' :: (writeItems items ++ ']' :: rest) := by
          simp
        rw [hparts]
        have hlength : (write j ++ ", " ++ writeItems items).length =
            (write j).length + 2 + (writeItems items).length := by
          simp
          omega
        apply readItems_more (hfirst fuel _ (by omega) (endsNumber_cons (by decide)))
        rw [skipSpace_writeItems hlast]
        exact ih (fun j' hj' => hitems j' (List.mem_cons_of_mem _ hj')) hlast (by omega)

theorem readsBack_array {items : List Json} (hitems : ∀ j ∈ items, ReadsBack j) :
    ReadsBack (.array items) := by
  intro fuel rest hfuel _
  have hpos := length_write_pos (.array items)
  obtain ⟨fuel, rfl⟩ : ∃ more, fuel = more + 1 := ⟨fuel - 1, by omega⟩
  have hparts : write (.array items) ++ rest = '[' :: (writeItems items ++ ']' :: rest) := by
    simp [write]
  have hlength : (write (.array items)).length = (writeItems items).length + 2 := by
    simp [write]
  rw [hparts, readValue]
  by_cases hnone : items = []
  · subst hnone
    rfl
  · rw [skipSpace_writeItems hnone]
    obtain ⟨c, t, hwrite, hc⟩ := writeItems_begins hnone
    have hread : readItems fuel (writeItems items ++ ']' :: rest) = .ok (items, rest) :=
      readItems_write hitems hnone (by omega)
    split
    · rename_i hclosed
      rw [hwrite] at hclosed
      exact absurd (List.cons.inj hclosed).1 hc.2.1
    · rw [hread]

theorem writeFields_cons (name : Text) (j : Json) {fields : List (Text × Json)} (h : fields ≠ []) :
    writeFields ((name, j) :: fields) =
      writeText name ++ ": " ++ write j ++ ", " ++ writeFields fields := by
  cases fields with
  | nil => exact absurd rfl h
  | cons f fields => rw [writeFields]

theorem writeFields_begins {fields : List (Text × Json)} (h : fields ≠ []) :
    ∃ t, writeFields fields = '"' :: t := by
  cases fields with
  | nil => exact absurd rfl h
  | cons f fields =>
      obtain ⟨name, j⟩ := f
      by_cases hlast : fields = []
      · subst hlast
        exact ⟨_, rfl⟩
      · rw [writeFields_cons name j hlast]
        exact ⟨_, rfl⟩

theorem skipSpace_writeFields {fields : List (Text × Json)} (h : fields ≠ []) (rest : Text) :
    skipSpace (writeFields fields ++ rest) = writeFields fields ++ rest := by
  obtain ⟨t, hwrite⟩ := writeFields_begins h
  rw [hwrite]
  exact skipSpace_cons _ rfl

theorem writeText_colon (name t : Text) :
    writeText name ++ ": " ++ t = '"' :: (name.flatMap writeChar ++ '"' :: ':' :: ' ' :: t) := by
  simp [writeText]

theorem readFields_field (fuel : Nat) (name t : Text) :
    readFields (fuel + 1) (writeText name ++ ": " ++ t) =
      match readValue fuel (skipSpace t) with
      | .error fault => .error fault
      | .ok (value, rest) =>
          match skipSpace rest with
          | '\x7d' :: rest => .ok ([(name, value)], rest)
          | ',' :: rest =>
              match readFields fuel (skipSpace rest) with
              | .error fault => .error fault
              | .ok (fields, rest) => .ok ((name, value) :: fields, rest)
          | here => .error (.expected .comma here) := by
  rw [writeText_colon]
  simp only [readFields]
  rw [readText_flatMap name]
  rfl

theorem readFields_last {name t : Text} {j : Json}
    (hj : readValue fuel (skipSpace t) = .ok (j, '\x7d' :: rest)) :
    readFields (fuel + 1) (writeText name ++ ": " ++ t) = .ok ([(name, j)], rest) := by
  have hend : ∀ t, skipSpace ('\x7d' :: t) = '\x7d' :: t := fun t => skipSpace_cons t rfl
  simp only [readFields_field, hj, hend]

theorem readFields_more {name t more : Text} {j : Json} {fields : List (Text × Json)}
    (hj : readValue fuel (skipSpace t) = .ok (j, ',' :: ' ' :: more))
    (hmore : readFields fuel (skipSpace more) = .ok (fields, rest)) :
    readFields (fuel + 1) (writeText name ++ ": " ++ t) = .ok ((name, j) :: fields, rest) := by
  have hcomma : ∀ t, skipSpace (',' :: t) = ',' :: t := fun t => skipSpace_cons t rfl
  simp only [readFields_field, hj, hcomma, skipSpace_space, hmore]

theorem readFields_write {fields : List (Text × Json)} (hfields : ∀ f ∈ fields, ReadsBack f.2)
    (hne : fields ≠ []) (hfuel : 2 * (writeFields fields).length < fuel) :
    readFields fuel (writeFields fields ++ '\x7d' :: rest) = .ok (fields, rest) := by
  induction fields generalizing fuel with
  | nil => exact absurd rfl hne
  | cons f fields ih =>
      obtain ⟨name, j⟩ := f
      obtain ⟨fuel, rfl⟩ : ∃ more, fuel = more + 1 := ⟨fuel - 1, by omega⟩
      have hfirst : ReadsBack j := hfields (name, j) List.mem_cons_self
      by_cases hlast : fields = []
      · subst hlast
        rw [writeFields] at hfuel ⊢
        rw [List.length_append] at hfuel
        rw [List.append_assoc]
        apply readFields_last
        rw [skipSpace_write]
        exact hfirst fuel _ (by omega) (endsNumber_cons (by decide))
      · rw [writeFields_cons name j hlast] at hfuel ⊢
        have hparts : writeText name ++ ": " ++ write j ++ ", " ++ writeFields fields ++
              '\x7d' :: rest =
            writeText name ++ ": " ++
              (write j ++ ',' :: ' ' :: (writeFields fields ++ '\x7d' :: rest)) := by
          simp
        rw [hparts]
        have hlength : (writeText name ++ ": " ++ write j ++ ", " ++ writeFields fields).length =
            (writeText name).length + 2 + (write j).length + 2 + (writeFields fields).length := by
          simp
          omega
        apply readFields_more
        · rw [skipSpace_write]
          exact hfirst fuel _ (by omega) (endsNumber_cons (by decide))
        · rw [skipSpace_writeFields hlast]
          exact ih (fun f hf => hfields f (List.mem_cons_of_mem _ hf)) hlast (by omega)

theorem readValue_object (t : Text) :
    readValue (fuel + 1) ('\x7b' :: '"' :: t) =
      match readFields fuel ('"' :: t) with
      | .error fault => .error fault
      | .ok (fields, rest) => .ok (.object fields, rest) := by
  rw [readValue, skipSpace_cons t rfl]
  split
  · rename_i hclosed
    exact absurd (List.cons.inj hclosed).1 (by decide)
  · rfl

theorem readsBack_object {fields : List (Text × Json)} (hfields : ∀ f ∈ fields, ReadsBack f.2) :
    ReadsBack (.object fields) := by
  intro fuel rest hfuel _
  have hpos := length_write_pos (.object fields)
  obtain ⟨fuel, rfl⟩ : ∃ more, fuel = more + 1 := ⟨fuel - 1, by omega⟩
  have hparts : write (.object fields) ++ rest =
      '\x7b' :: (writeFields fields ++ '\x7d' :: rest) := by
    simp [write]
  have hlength : (write (.object fields)).length = (writeFields fields).length + 2 := by
    simp [write]
  rw [hparts]
  by_cases hnone : fields = []
  · subst hnone
    rw [readValue]
    rfl
  · obtain ⟨t, hwrite⟩ := writeFields_begins hnone
    have hread : readFields fuel (writeFields fields ++ '\x7d' :: rest) = .ok (fields, rest) :=
      readFields_write hfields hnone (by omega)
    rw [hwrite, List.cons_append] at hread ⊢
    rw [readValue_object, hread]

theorem readsBack_of_plain {j : Json} (hj : j.Plain) : ReadsBack j := by
  induction hj with
  | null =>
      rintro (_ | fuel) rest hfuel -
      · simp [write] at hfuel
      · rfl
  | bool b =>
      rintro (_ | fuel) rest hfuel -
      · cases b <;> simp [write] at hfuel
      · cases b <;> rfl
  | integer hn => exact readsBack_integer hn
  | text t => exact readsBack_text t
  | array _ ih => exact readsBack_array ih
  | object _ ih => exact readsBack_object ih

theorem read_write_append {j : Json} (hj : j.Plain) (hrest : EndsNumber rest)
    (hblank : skipSpace rest = []) : read (write j ++ rest) = .ok j := by
  obtain ⟨c, t, hwrite, hc⟩ := write_begins j
  have hback : readValue (2 * (write j ++ rest).length + 2) (write j ++ rest) = .ok (j, rest) := by
    apply readsBack_of_plain hj _ _ _ hrest
    rw [List.length_append]
    omega
  rw [read]
  · rw [skipSpace_write, hback]
    dsimp only
    rw [hblank]
  · intro rest' hmark
    rw [hwrite] at hmark
    exact hc.2.2 (List.cons.inj hmark).1

theorem read_write {j : Json} (hj : j.Plain) : read (write j) = .ok j := by
  have hend : EndsNumber [] := by
    intro c hc
    exact nomatch hc
  have hread := read_write_append hj hend rfl
  rwa [List.append_nil] at hread

end Json

end ScriptWeave
