import ScriptWeave.Proofs.CompilerOutput.Marks
import ScriptWeave.Proofs.Numeral
import ScriptWeave.Proofs.OutputLines

namespace ScriptWeave

open Text Header Header.Pattern

namespace Text

theorem bounds_of_isAsciiLetter {c : Char} (h : isAsciiLetter c = true) :
    65 ≤ c.toNat ∧ c.toNat ≤ 122 := by
  have hletter : (decide (65 ≤ c.val ∧ c.val ≤ 90) || (decide (97 ≤ c.val) && decide (c.val ≤ 122))) =
      true := h
  simp only [Bool.or_eq_true, Bool.and_eq_true, decide_eq_true_eq, UInt32.le_iff_toNat_le] at hletter
  have hranges : (65 ≤ c.toNat ∧ c.toNat ≤ 90) ∨ (97 ≤ c.toNat ∧ c.toNat ≤ 122) := hletter
  omega

theorem not_isDecimal_of_isAsciiLetter {c : Char} (h : isAsciiLetter c = true) :
    isDecimal c = false := by
  obtain ⟨hlow, hhigh⟩ := bounds_of_isAsciiLetter h
  have hzeros : ∀ z ∈ decimalZeros, z + 9 < 65 ∨ 122 < z := by decide
  have hnone : (decimalZeros.find? fun z => z ≤ c.toNat && c.toNat ≤ z + 9) = none := by
    rw [List.find?_eq_none]
    intro z hz hdigit
    rw [Bool.and_eq_true, decide_eq_true_eq, decide_eq_true_eq] at hdigit
    have hapart := hzeros z hz
    omega
  rw [isDecimal, digitValue?, hnone]
  rfl

theorem isWordChar_of_isAsciiLetter {c : Char} (h : isAsciiLetter c = true) :
    isWordChar c = true := by
  have hbounds := bounds_of_isAsciiLetter h
  rw [isWordChar, if_pos (by omega)]
  have halpha : c.isAlpha = true := h
  simp [Char.isAlphanum, halpha]

theorem not_isOutputBreak_of_not_isBlank {c : Char} (h : isBlank c = false) :
    isOutputBreak c = false := by
  rw [Bool.eq_false_iff]
  intro hbreak
  simp only [isOutputBreak, Bool.or_eq_true, beq_iff_eq] at hbreak
  rcases hbreak with ((((((((rfl | rfl) | rfl) | rfl) | rfl) | rfl) | rfl) | rfl) | rfl) | rfl <;>
    exact absurd h (by decide)

theorem not_isOutputBreak_of_isWordChar {c : Char} (h : isWordChar c = true) :
    isOutputBreak c = false :=
  not_isOutputBreak_of_not_isBlank (not_isBlank_of_isWordChar h)

theorem not_isOutputBreak_of_isDecimal {c : Char} (h : isDecimal c = true) :
    isOutputBreak c = false := by
  have hranges : inRanges (decimalZeros.map fun z => (z, z + 9)) c.toNat = true := by
    rw [isDecimal, digitValue?, Option.isSome_map, List.find?_isSome] at h
    obtain ⟨z, hz, hdigit⟩ := h
    exact List.any_eq_true.mpr ⟨(z, z + 9), List.mem_map_of_mem hz, hdigit⟩
  exact not_isOutputBreak_of_not_isBlank (not_inRanges_of_apart (by decide +kernel) hranges)

theorem digitValue_lt (c : Char) : (digitValue? c).getD 0 < 10 := by
  rw [digitValue?]
  cases hfound : decimalZeros.find? fun z => z ≤ c.toNat && c.toNat ≤ z + 9 with
  | none => simp
  | some z =>
      have hdigit := List.find?_some hfound
      rw [Bool.and_eq_true, decide_eq_true_eq, decide_eq_true_eq] at hdigit
      simp only [Option.map_some, Option.getD_some]
      omega

theorem decimalValue_lt (number : Text) : decimalValue number < Nat.pow 10 number.length := by
  -- The value grows by a factor of ten with each digit, from whatever is there already.
  have hgrows : ∀ (number : Text) (n bound : Nat), n < bound →
      number.foldl (fun n c => 10 * n + (digitValue? c).getD 0) n <
        bound * Nat.pow 10 number.length := by
    intro number
    induction number with
    | nil => intro n bound h; simpa using h
    | cons c number ih =>
        intro n bound h
        have hdigit := digitValue_lt c
        have hstep := ih (10 * n + (digitValue? c).getD 0) (bound * 10) (by omega)
        have hpower : Nat.pow 10 (c :: number).length = 10 * Nat.pow 10 number.length :=
          Nat.mul_comm _ _
        rw [hpower, ← Nat.mul_assoc]
        exact hstep
  have hvalue := hgrows number 0 1 (by omega)
  rwa [Nat.one_mul] at hvalue

def FewDigits (n : Nat) : Prop := (ofNat n).length ≤ digitLimit

instance (n : Nat) : Decidable (FewDigits n) := inferInstanceAs (Decidable (_ ≤ _))

theorem FewDigits.isWritable {n : Nat} (h : FewDigits n) : isWritable (Int.ofNat n) = true := by
  have hvalue := decimalValue_lt (ofNat n)
  rw [decimalValue_ofNat] at hvalue
  -- The limit is kept as a name, so that nothing computes a number of that size.
  have hpower : ∀ limit, (ofNat n).length ≤ limit →
      decide ((Int.ofNat n).natAbs < Nat.pow 10 limit) = true := by
    intro limit hlength
    exact decide_eq_true (Nat.lt_of_lt_of_le hvalue (Nat.pow_le_pow_right (by omega) hlength))
  exact hpower digitLimit h

theorem FewDigits.numberOfDigits {n : Nat} (h : FewDigits n) :
    numberOfDigits (ofNat n) = .ok n := by
  have hshort : (ofNat n).length ≤ digitLimit := h
  rw [Text.numberOfDigits, if_pos hshort, decimalValue_ofNat]

end Text

namespace CompilerOutput

section Verdicts

variable {severity : Severity} {code message more : Text}

theorem readSeverity?_toText (hseverity : ∀ name, severity ≠ .other name) (rest : Text) :
    readSeverity? (severity.toText ++ rest) = some (severity, rest) := by
  have hself : ∀ word : Text, afterPrefix? word (word ++ rest) = some rest :=
    fun word => afterPrefix?_eq_some_iff.mpr rfl
  have herror : afterPrefix? "error" ("warning".toList ++ rest) = none := if_neg (by decide)
  have herror' : afterPrefix? "error" ("info".toList ++ rest) = none := if_neg (by decide)
  have hwarning : afterPrefix? "warning" ("info".toList ++ rest) = none := if_neg (by decide)
  rw [readSeverity?]
  cases severity with
  | error =>
      have hword : Severity.error.toText = "error".toList := rfl
      rw [hword, hself]
  | warning =>
      have hword : Severity.warning.toText = "warning".toList := rfl
      rw [hword, hself, herror]
  | info =>
      have hword : Severity.info.toText = "info".toList := rfl
      rw [hword, hself, herror', hwarning]
  | other name => exact absurd rfl (hseverity name)

theorem readCode?_append (hcode : Consists isWordChar code) (hne : code ≠ []) (rest : Text) :
    readCode? (code ++ ':' :: rest) = some (code, ':' :: rest) := by
  have hparts : Parts isWordChar (':' :: rest) := parts_cons rest (by decide)
  rw [readCode?, takeWhile_of_parts hcode hparts, dropWhile_of_parts hcode hparts]
  cases code with
  | nil => exact absurd rfl hne
  | cons c code => rfl

theorem readNumberedCode?_append {letters number : Text} (hletters : Consists isAsciiLetter letters)
    (hne : letters ≠ []) (hnumber : Consists isDecimal number) (hne' : number ≠ []) (rest : Text) :
    readNumberedCode? (letters ++ number ++ ':' :: rest) =
      some (letters ++ number, ':' :: rest) := by
  obtain ⟨d, number, rfl⟩ := List.exists_cons_of_ne_nil hne'
  have hparts : Parts isAsciiLetter (d :: number ++ ':' :: rest) := by
    apply parts_cons
    rw [Bool.eq_false_iff]
    intro hletter
    have hdecimal := hnumber d List.mem_cons_self
    simp [not_isDecimal_of_isAsciiLetter hletter] at hdecimal
  have hend : Parts isDecimal (':' :: rest) := parts_cons rest (by decide)
  rw [List.append_assoc, readNumberedCode?, takeWhile_of_parts hletters hparts,
    dropWhile_of_parts hletters hparts, readDigits?, takeWhile_of_parts hnumber hend,
    dropWhile_of_parts hnumber hend]
  cases letters with
  | nil => exact absurd rfl hne
  | cons c letters => rfl

def verdictText (severity : Severity) (code message : Text) : Text :=
  severity.toText ++ ' ' :: (code ++ ':' :: trimEnd (' ' :: message))

theorem readVerdict?_verdictText {readCode : Text → Option (Text × Text)}
    (hseverity : ∀ name, severity ≠ .other name) (hparts : Parts isBlank (code ++ [':']))
    (hcode : ∀ rest, readCode (code ++ ':' :: rest) = some (code, ':' :: rest))
    (hmessage : Tidy message) :
    readVerdict? readCode (verdictText severity code message) =
      some ⟨severity, code, message⟩ := by
  have hblanks : afterBlanks? (' ' :: (code ++ ':' :: trimEnd (' ' :: message))) =
      some (code ++ ':' :: trimEnd (' ' :: message)) := by
    rw [afterBlanks?, if_pos (by decide), trimStart_of_parts]
    intro c hc
    apply hparts c
    cases code with
    | nil => simpa using hc
    | cons d code => simpa using hc
  have hcolon : afterColon? (':' :: trimEnd (' ' :: message)) = some message := by
    rw [afterColon?, trimStart_of_parts (parts_cons _ (by decide))]
    simp [afterPrefix?, hmessage.trimStart_trimEnd_space]
  simp [readVerdict?, verdictText, readSeverity?_toText hseverity, hblanks, hcode, hcolon,
    hmessage.trimmed]

end Verdicts

section Lines

variable {severity : Severity} {code message file more : Text}

theorem readPosition?_append (line column : Nat) {verdict : Verdict} (hmore : Parts isBlank more)
    (hverdict : readVerdict? readCode? more = some verdict) :
    readPosition? ('(' :: (ofNat line ++ ',' :: (ofNat column ++ ')' :: ':' :: ' ' :: more))) =
      some ((ofNat line, ofNat column), verdict) := by
  have hline := readDigits?_ofNat_append line
    (ofNat column ++ ')' :: ':' :: ' ' :: more) (c := ',') (by decide)
  have hcolumn := readDigits?_ofNat_append column (':' :: ' ' :: more) (c := ')') (by decide)
  have hspace : trimStart (' ' :: more) = more := by
    have hdrop : trimStart (' ' :: more) = trimStart more := List.dropWhile_cons_of_pos (by decide)
    rw [hdrop, trimStart_of_parts hmore]
  have hcolon : afterColon? (':' :: ' ' :: more) = some more := by
    rw [afterColon?, trimStart_of_parts (parts_cons _ (by decide))]
    simp [afterPrefix?, hspace]
  simp [readPosition?, readPair?, hline, hcolumn, afterPrefix?, afterRangeEnd?, hcolon, hverdict]

theorem readLocated?_append {numbers : Text × Text} {verdict : Verdict}
    (hfile : ¬ positionMark.Occurs file)
    (hposition : readPosition? ('(' :: more) = some (numbers, verdict)) (front : Text) :
    readLocated? front (file ++ '(' :: more) = some (front.reverse ++ file, numbers, verdict) := by
  induction file generalizing front with
  | nil => simp [readLocated?, hposition]
  | cons c file ih =>
      have hnone : readPosition? (c :: file ++ '(' :: more) = none := by
        cases hread : readPosition? (c :: file ++ '(' :: more) with
        | none => rfl
        | some found =>
            have hbegins := Begins.of_locatedMark (begins_of_readPosition? hread)
            have hinside : positionMark.Begins (c :: file) :=
              begins_of_begins_append (r := pair ++ rangeEnd ++ colon) (by decide) (by simp) hbegins
            exact absurd (hinside.occurs []) hfile
      have hmore := ih (fun hoccurs => hfile (hoccurs.append_left [c])) (c :: front)
      rw [List.cons_append] at hnone
      rw [List.cons_append, readLocated?, hnone]
      simp [hmore]

theorem trim_line {lead : Text} (hparts : Parts isBlank (lead ++ (severity.toText ++ ' ' :: code))) :
    trim (lead ++ (severity.toText ++ ' ' :: (code ++ ':' :: ' ' :: message))) =
      lead ++ verdictText severity code message := by
  have hline : lead ++ (severity.toText ++ ' ' :: (code ++ ':' :: ' ' :: message)) =
      lead ++ (severity.toText ++ ' ' :: code) ++ ':' :: ' ' :: message := by simp
  have hstart : Parts isBlank (lead ++ (severity.toText ++ ' ' :: code) ++ ':' :: ' ' :: message) := by
    intro c hc
    apply hparts c
    rw [List.head?_append_of_ne_nil _ (by simp)] at hc
    exact hc
  rw [hline, trim, trimStart_of_parts hstart, trimEnd_append_cons _ _ (by decide)]
  simp [verdictText]

theorem not_ends_colon (t : Text) : ¬ projectMark.Ends (t ++ [':']) := by
  rintro ⟨front, back, hsplit, hback⟩
  obtain ⟨v, hv, hliteral⟩ := mem_sequence.mp hback
  obtain ⟨run, rfl, -, -⟩ := exists_run_of_mem (x := ']') (by decide) hv
  rw [mem_literal.mp hliteral] at hsplit
  have hlast := congrArg List.getLast? hsplit
  simp at hlast

theorem not_ends_of_render (hmessage : Tidy message) {lead : Text}
    (h : ¬ projectMark.Ends (lead ++ (severity.toText ++ ' ' :: (code ++ ':' :: ' ' :: message)))) :
    ¬ projectMark.Ends (lead ++ verdictText severity code message) := by
  by_cases hempty : message = []
  · have hcolon := not_ends_colon (lead ++ (severity.toText ++ ' ' :: code))
    have hspace : trimEnd [' '] = [] := by decide
    rw [hempty, verdictText, hspace]
    simpa using hcolon
  · rwa [verdictText, hmessage.trimEnd_space hempty]

theorem not_occurs_of_render
    (h : ¬ locatedMark.Occurs (severity.toText ++ ' ' :: (code ++ ':' :: ' ' :: message))) :
    ¬ locatedMark.Occurs (verdictText severity code message) := by
  obtain ⟨blanks, hblanks, -⟩ := exists_trimEnd_append (' ' :: message)
  rintro ⟨front, back, rest, hsplit, hrest⟩
  obtain ⟨run, rfl, -, hall⟩ := exists_run_of_mem (x := '$') (by decide) hrest
  apply h
  refine ⟨front, run ++ (rest ++ blanks), rest ++ blanks, ?_, hall _⟩
  have hline : severity.toText ++ ' ' :: (code ++ ':' :: ' ' :: message) =
      verdictText severity code message ++ blanks := by
    conv => lhs; rw [hblanks]
    simp [verdictText]
  rw [hline, hsplit]
  simp

theorem readUnlocated?_verdictText (hseverity : ∀ name, severity ≠ .other name)
    {letters number : Text} (hletters : Consists isAsciiLetter letters) (hne : letters ≠ [])
    (hnumber : Consists isDecimal number) (hne' : number ≠ []) (hmessage : Tidy message)
    (hbegins : ¬ (verdictMark numberedCode).Begins message) :
    readUnlocated? (verdictText severity (letters ++ number) message) =
      some ⟨severity, letters ++ number, message⟩ := by
  have hword : Consists (fun c => decide (c ≠ ':')) (severity.toText ++ ' ' :: (letters ++ number)) := by
    intro c hc
    rw [decide_eq_true_eq]
    rintro rfl
    simp only [List.mem_append, List.mem_cons] at hc
    rcases hc with hc | hc | hc | hc
    · cases severity with
      | other name => exact hseverity name rfl
      | _ => exact absurd hc (by decide)
    · simp at hc
    · exact absurd (hletters _ hc) (by decide)
    · exact absurd (hnumber _ hc) (by decide)
  have htext : verdictText severity (letters ++ number) message =
      severity.toText ++ ' ' :: (letters ++ number) ++ ':' :: trimEnd (' ' :: message) := by
    simp [verdictText]
  have hdrop : (verdictText severity (letters ++ number) message).dropWhile (· ≠ ':') =
      ':' :: trimEnd (' ' :: message) := by
    rw [htext]
    exact dropWhile_of_parts hword (parts_cons _ (by decide))
  have hnamed : readVerdict? readNumberedCode? message = none := by
    cases hread : readVerdict? readNumberedCode? message with
    | none => rfl
    | some verdict =>
        exact absurd (begins_of_readVerdict? (fun _ _ _ => mem_of_readNumberedCode?) hread) hbegins
  have hparts : Parts isBlank (letters ++ number ++ [':']) := by
    obtain ⟨c, letters, rfl⟩ := List.exists_cons_of_ne_nil hne
    apply parts_cons
    exact not_isBlank_of_isWordChar (isWordChar_of_isAsciiLetter (hletters c List.mem_cons_self))
  rw [readUnlocated?, hdrop]
  simp only [hmessage.trimStart_trimEnd_space, hnamed]
  exact readVerdict?_verdictText hseverity hparts
    (readNumberedCode?_append hletters hne hnumber hne') hmessage

end Lines

end CompilerOutput

/-! ### Diagnostics -/

namespace Diagnostic

open CompilerOutput

structure IsLocated (d : Diagnostic) (file : Text) (line column : Nat) (code : Text) : Prop where
  span_eq : d.span = ⟨some file, some (Int.ofNat line), some (Int.ofNat column)⟩
  file_tidy : Tidy file
  no_position : ¬ positionMark.Occurs file
  line_short : FewDigits line
  column_short : FewDigits column
  code_eq : d.code = some code
  code_ne : code ≠ []
  code_word : Consists isWordChar code

/-- No position, a code of letters with digits behind them, and nothing that reads otherwise. -/
structure IsBare (d : Diagnostic) (letters number : Text) : Prop where
  span_eq : d.span = {}
  code_eq : d.code = some (letters ++ number)
  letters_ne : letters ≠ []
  letters_all : Consists isAsciiLetter letters
  number_ne : number ≠ []
  number_all : Consists isDecimal number
  no_verdict : ¬ (verdictMark numberedCode).Begins d.message
  not_located : ¬ locatedMark.Occurs d.render

/-- A diagnostic that can be told from its line. -/
structure IsLegible (d : Diagnostic) : Prop where
  severity_known : ∀ name, d.severity ≠ .other name
  message_tidy : Tidy d.message
  not_promoted : d.promoted = false
  no_notes : d.notes = []
  shape : (∃ file line column code, d.IsLocated file line column code) ∨
    ∃ letters number, d.IsBare letters number
  no_project : ¬ projectMark.Ends d.render

variable {d : Diagnostic} {file code letters number : Text} {line column : Nat}

theorem IsLocated.render (h : d.IsLocated file line column code) :
    d.render = file ++ '(' :: (ofNat line ++ ',' :: (ofNat column ++ ')' :: ':' :: ' ' ::
      (d.severity.toText ++ ' ' :: (code ++ ':' :: ' ' :: d.message)))) := by
  have hcode := h.code_ne
  simp [Diagnostic.render, h.span_eq, h.code_eq, Span.location, Span.fileName, ofInt, hcode]

theorem IsBare.render (h : d.IsBare letters number) :
    d.render = d.severity.toText ++ ' ' :: (letters ++ number ++ ':' :: ' ' :: d.message) := by
  have hletters := h.letters_ne
  simp [Diagnostic.render, h.span_eq, h.code_eq, Span.location, hletters]

theorem IsLegible.eq_mk (h : d.IsLegible) {span : Span} (hspan : d.span = span)
    (hcode : d.code = some code) : d = ⟨d.message, some code, d.severity, span, false, []⟩ := by
  obtain ⟨message, code', severity, span', promoted, notes⟩ := d
  obtain rfl : span' = span := hspan
  obtain rfl : code' = some code := hcode
  obtain rfl : promoted = false := h.not_promoted
  obtain rfl : notes = [] := h.no_notes
  rfl

theorem readLine_of_located (h : d.IsLegible) (hd : d.IsLocated file line column code) :
    readLine d.render = .ok (some d) := by
  have hparts : Parts isBlank (code ++ [':']) := parts_isBlank_of_word hd.code_word hd.code_ne
  have hverdict : readVerdict? readCode? (verdictText d.severity code d.message) =
      some ⟨d.severity, code, d.message⟩ :=
    readVerdict?_verdictText h.severity_known hparts (readCode?_append hd.code_word hd.code_ne)
      h.message_tidy
  have hseverity : Parts isBlank (verdictText d.severity code d.message) := by
    cases hs : d.severity with
    | other name => exact absurd hs (h.severity_known name)
    | _ => exact parts_cons _ (by decide)
  have hposition := readPosition?_append line column hseverity hverdict
  have hlocated := readLocated?_append hd.no_position hposition []
  -- What stands in front of the severity in the line.
  let lead : Text := file ++ '(' :: (ofNat line ++ ',' :: (ofNat column ++ [')', ':', ' ']))
  have hlead : ∀ t : Text,
      file ++ '(' :: (ofNat line ++ ',' :: (ofNat column ++ ')' :: ':' :: ' ' :: t)) = lead ++ t := by
    intro t
    simp [lead]
  have hfront : Parts isBlank (lead ++ (d.severity.toText ++ ' ' :: code)) := by
    rw [← hlead]
    cases hfile : file with
    | nil => exact parts_cons _ (by decide)
    | cons c rest => exact parts_cons _ (hd.file_tidy.parts c (by rw [hfile]; rfl))
  have hproject := h.no_project
  rw [hd.render, hlead] at hproject
  have hline : dropProjectMark (trim d.render) =
      lead ++ verdictText d.severity code d.message := by
    rw [hd.render, hlead, trim_line hfront]
    exact dropProjectMark_of_not_ends (not_ends_of_render h.message_tidy hproject)
  rw [hlead] at hlocated
  rw [readLine, hline, hlocated]
  conv => rhs; rw [h.eq_mk hd.span_eq hd.code_eq]
  simp [hd.line_short.numberOfDigits, hd.column_short.numberOfDigits, hd.file_tidy.trimmed, bind,
    Except.bind, pure, Except.pure]

theorem readLine_of_bare (h : d.IsLegible) (hd : d.IsBare letters number) :
    readLine d.render = .ok (some d) := by
  have hfront : Parts isBlank ([] ++ (d.severity.toText ++ ' ' :: (letters ++ number))) := by
    cases hs : d.severity with
    | other name => exact absurd hs (h.severity_known name)
    | _ => exact parts_cons _ (by decide)
  have hproject := h.no_project
  rw [hd.render] at hproject
  have hline : dropProjectMark (trim d.render) =
      verdictText d.severity (letters ++ number) d.message := by
    rw [hd.render]
    have htrim : trim (d.severity.toText ++ ' ' :: (letters ++ number ++ ':' :: ' ' :: d.message)) =
        verdictText d.severity (letters ++ number) d.message := trim_line hfront
    have hends : ¬ projectMark.Ends ([] ++ verdictText d.severity (letters ++ number) d.message) :=
      not_ends_of_render h.message_tidy hproject
    rw [htrim]
    exact dropProjectMark_of_not_ends hends
  have hlocated := hd.not_located
  rw [hd.render] at hlocated
  have hnone := readLocated?_of_not_occurs (not_occurs_of_render hlocated) []
  have hunlocated := readUnlocated?_verdictText h.severity_known hd.letters_all hd.letters_ne
    hd.number_all hd.number_ne h.message_tidy hd.no_verdict
  rw [readLine, hline, hnone, hunlocated]
  conv => rhs; rw [h.eq_mk hd.span_eq hd.code_eq]

theorem IsLegible.readLine (h : d.IsLegible) : readLine d.render = .ok (some d) := by
  rcases h.shape with ⟨file, line, column, code, hd⟩ | ⟨letters, number, hd⟩
  · exact readLine_of_located h hd
  · exact readLine_of_bare h hd

theorem IsLegible.write (h : d.IsLegible) : d.write = .ok d.render := by
  rcases h.shape with ⟨file, line, column, code, hd⟩ | ⟨letters, number, hd⟩
  · have hline := hd.line_short.isWritable
    have hcolumn := hd.column_short.isWritable
    simp only [Int.ofNat_eq_natCast] at hline hcolumn
    simp [Diagnostic.write, hd.span_eq, hline, hcolumn]
  · simp [Diagnostic.write, hd.span_eq]

theorem not_isOutputBreak_of_severity (h : ∀ name, d.severity ≠ .other name) {c : Char}
    (hc : c ∈ d.severity.toText) : isOutputBreak c = false := by
  have hwords : ∀ word : Text, word.all (fun c => !isOutputBreak c) = true → c ∈ word →
      isOutputBreak c = false := by
    intro word hword hmem
    simpa using List.all_eq_true.mp hword c hmem
  cases hs : d.severity with
  | other name => exact absurd hs (h name)
  | _ =>
      rw [hs] at hc
      exact hwords _ (by decide) hc

theorem IsLegible.one_line (h : d.IsLegible) : ∀ c ∈ d.render, isOutputBreak c = false := by
  intro c hc
  have hnumber : ∀ {n : Nat}, c ∈ ofNat n → isOutputBreak c = false := fun hmem =>
    not_isOutputBreak_of_isDecimal (isDecimal_of_mem_ofNat hmem)
  rcases h.shape with ⟨file, line, column, code, hd⟩ | ⟨letters, number, hd⟩
  · rw [hd.render] at hc
    simp only [List.mem_append, List.mem_cons] at hc
    rcases hc with hc | rfl | hc | rfl | hc | rfl | rfl | rfl | hc | rfl | hc | rfl | rfl | hc
    all_goals try rfl
    · exact hd.file_tidy.one_line c hc
    · exact hnumber hc
    · exact hnumber hc
    · exact not_isOutputBreak_of_severity h.severity_known hc
    · exact not_isOutputBreak_of_isWordChar (hd.code_word c hc)
    · exact h.message_tidy.one_line c hc
  · rw [hd.render] at hc
    simp only [List.mem_append, List.mem_cons] at hc
    rcases hc with hc | rfl | (hc | hc) | rfl | rfl | hc
    all_goals try rfl
    · exact not_isOutputBreak_of_severity h.severity_known hc
    · exact not_isOutputBreak_of_isWordChar (isWordChar_of_isAsciiLetter (hd.letters_all c hc))
    · exact not_isOutputBreak_of_isDecimal (hd.number_all c hc)
    · exact h.message_tidy.one_line c hc

theorem render_ne_nil (d : Diagnostic) : d.render ≠ [] := by
  simp [Diagnostic.render]

end Diagnostic

namespace CompilerOutput

theorem readLines_of_each {ds : List Diagnostic}
    (h : ∀ d ∈ ds, readLine d.render = .ok (some d)) :
    readLines (ds.map Diagnostic.render) = .ok ds := by
  induction ds with
  | nil => rfl
  | cons d ds ih =>
      have hmore := ih fun d' hd' => h d' (List.mem_cons_of_mem _ hd')
      rw [List.map_cons, readLines, h d List.mem_cons_self, hmore]
      rfl

theorem mapM_write_of_each {ds : List Diagnostic} (h : ∀ d ∈ ds, d.write = .ok d.render) :
    ds.mapM Diagnostic.write = .ok (ds.map Diagnostic.render) := by
  induction ds with
  | nil => rfl
  | cons d ds ih =>
      have hmore := ih fun d' hd' => h d' (List.mem_cons_of_mem _ hd')
      rw [List.mapM_cons, h d List.mem_cons_self, hmore]
      rfl

/-- Diagnostics that are written one to a line are read back, all of them and in order. -/
theorem read_of_written {ds : List Diagnostic} (h : ∀ d ∈ ds, d.IsLegible) :
    ∃ lines, ds.mapM Diagnostic.write = .ok lines ∧ read (joinWith ['\n'] lines) = .ok ds := by
  refine ⟨ds.map Diagnostic.render, mapM_write_of_each fun d hd => (h d hd).write, ?_⟩
  have hlines : ∀ line ∈ ds.map Diagnostic.render,
      line ≠ [] ∧ ∀ c ∈ line, isOutputBreak c = false := by
    intro line hline
    obtain ⟨d, hd, rfl⟩ := List.mem_map.mp hline
    exact ⟨d.render_ne_nil, (h d hd).one_line⟩
  rw [read, outputLines_joinWith hlines]
  exact readLines_of_each fun d hd => (h d hd).readLine

/-- A file with a parenthesis in its name and one without a name, and a message that looks like the
code of another diagnostic. -/
theorem read_of_written_parenthesis :
    (∀ d ∈ [⟨"; expected", some "CS1002".toList, .error, ⟨some "a (1, 2).cs".toList, some 3, some 14⟩,
        false, []⟩, ⟨"warning: no code", some "CS0006".toList, .warning, {}, false, []⟩],
      Diagnostic.IsLegible d) ∧
    ∃ lines, [⟨"; expected", some "CS1002".toList, .error,
        ⟨some "a (1, 2).cs".toList, some 3, some 14⟩, false, []⟩,
        (⟨"warning: no code", some "CS0006".toList, .warning, {}, false, []⟩ : Diagnostic)].mapM
          Diagnostic.write = .ok lines ∧
      read (joinWith ['\n'] lines) = .ok [⟨"; expected", some "CS1002".toList, .error,
        ⟨some "a (1, 2).cs".toList, some 3, some 14⟩, false, []⟩,
        ⟨"warning: no code", some "CS0006".toList, .warning, {}, false, []⟩] := by
  have hlegible : ∀ d ∈ [⟨"; expected", some "CS1002".toList, .error,
      ⟨some "a (1, 2).cs".toList, some 3, some 14⟩, false, []⟩,
      ⟨"warning: no code", some "CS0006".toList, .warning, {}, false, []⟩],
      Diagnostic.IsLegible d := by
    intro d hd
    rcases List.mem_cons.mp hd with rfl | hd
    · have hlocated : Diagnostic.IsLocated
          ⟨"; expected", some "CS1002".toList, .error, ⟨some "a (1, 2).cs".toList, some 3, some 14⟩,
            false, []⟩ "a (1, 2).cs" 3 14 "CS1002" :=
        ⟨rfl, by decide +kernel, by decide +kernel, by decide +kernel, by decide +kernel, rfl,
          by decide, List.all_eq_true.mp (by decide +kernel)⟩
      exact ⟨by simp, by decide +kernel, rfl, rfl, .inl ⟨_, _, _, _, hlocated⟩, by decide +kernel⟩
    · obtain rfl := List.mem_singleton.mp hd
      have hbare : Diagnostic.IsBare
          ⟨"warning: no code", some "CS0006".toList, .warning, {}, false, []⟩ "CS" "0006" :=
        ⟨rfl, rfl, by decide, List.all_eq_true.mp (by decide +kernel), by decide,
          List.all_eq_true.mp (by decide +kernel), by decide +kernel, by decide +kernel⟩
      exact ⟨by simp, by decide +kernel, rfl, rfl, .inr ⟨_, _, hbare⟩, by decide +kernel⟩
  exact ⟨hlegible, read_of_written hlegible⟩

end CompilerOutput

end ScriptWeave
