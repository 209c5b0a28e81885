import ScriptWeave.Proofs.Breaks
import ScriptWeave.Proofs.Header.Concatenation
import ScriptWeave.Proofs.Header.Truncation
import ScriptWeave.Proofs.LineStart
import ScriptWeave.Sources

/-!
The lines at which sources are found faulty. Bytes that are no text and declarations that break off are
both located by counting line feeds, so a fault is reported on its own line exactly if no carriage
return stands alone in front of it, and too early by one line for each that does.
-/

namespace ScriptWeave

open Text

/-! ### Bytes that are no text -/

namespace Text

/-- The bytes are those of one character, whatever follows them. -/
structure Spells (bytes : Bytes) (c : Char) : Prop where
  decode : ∀ offset rest, decodeFrom offset (bytes ++ rest) =
    (decodeFrom (offset + bytes.length) rest).map (c :: ·)
  ne_nil : bytes ≠ []
  count : bytes.count 10 = [c].count '\n'

theorem ofNat_ne_newline {n : Nat} (h : n ≠ 10) : Char.ofNat n ≠ '\n' := by
  intro hn
  rw [Char.ofNat] at hn
  by_cases hvalid : n.isValidChar
  · rw [dif_pos hvalid] at hn
    exact h (congrArg Char.toNat hn)
  · rw [dif_neg hvalid] at hn
    exact absurd hn (by decide)

theorem isContinuation_iff {b : UInt8} :
    isContinuation b = true ↔ 0x80 ≤ b.toNat ∧ b.toNat ≤ 0xBF := by
  simp only [isContinuation, Bool.and_eq_true, decide_eq_true_eq, UInt8.le_iff_toNat_le]
  exact Iff.rfl

theorem isSecondOf_bounds {lead second : UInt8} (h : isSecondOf lead second = true) :
    (0x80 ≤ second.toNat ∧ second.toNat ≤ 0xBF) ∧ (lead.toNat = 0xE0 → 0xA0 ≤ second.toNat) ∧
      (lead.toNat = 0xF0 → 0x90 ≤ second.toNat) := by
  simp only [isSecondOf, Bool.and_eq_true, Bool.or_eq_true, decide_eq_true_eq,
    UInt8.le_iff_toNat_le, bne_iff_ne, ne_eq, ← UInt8.toNat_inj] at h
  obtain ⟨⟨⟨⟨hcontinues, hlow⟩, -⟩, hhigh⟩, -⟩ := h
  exact ⟨isContinuation_iff.mp hcontinues, fun hlead => hlow.resolve_left fun hn => hn hlead,
    fun hlead => hhigh.resolve_left fun hn => hn hlead⟩

theorem spells_of_high {bytes : Bytes} {n : Nat}
    (hdecode : ∀ offset rest, decodeFrom offset (bytes ++ rest) =
      (decodeFrom (offset + bytes.length) rest).map (Char.ofNat n :: ·))
    (hne : bytes ≠ []) (hbytes : ∀ b ∈ bytes, 0x80 ≤ b.toNat) (hn : n ≠ 10) :
    Spells bytes (Char.ofNat n) where
  decode := hdecode
  ne_nil := hne
  count := by
    have hbyte : (10 : UInt8) ∉ bytes := fun hmem => absurd (hbytes _ hmem) (by decide)
    rw [List.count_eq_zero.mpr hbyte, List.count_singleton, if_neg]
    simpa using ofNat_ne_newline hn

theorem spells_one {lead : UInt8} (h : lead < 0x80) : Spells [lead] (Char.ofNat lead.toNat) where
  decode offset rest := by
    rw [List.singleton_append, decodeFrom.eq_def]
    simp only [h, if_true, List.length_singleton]
  ne_nil := by simp
  count := by
    by_cases hlead : lead = 10
    · subst hlead
      rfl
    · have hne : lead.toNat ≠ 10 := fun heq => hlead (UInt8.toNat_inj.mp heq)
      have hchar := ofNat_ne_newline hne
      simp [hlead, hchar]

section Sequences

variable {lead second third fourth : UInt8} (hlow : ¬ lead < 0x80)
  (hlead : ¬ (lead < 0xC2 ∨ 0xF4 < lead)) (hsecond : isSecondOf lead second = true)

include hlow hlead hsecond

theorem spells_two (hshort : lead < 0xE0) :
    Spells [lead, second] (Char.ofNat (lead.toNat % 32 * 64 + tailBits second)) := by
  have hbound : 0xC2 ≤ lead.toNat := Nat.le_of_not_lt fun h => hlead (.inl h)
  have hbound' : lead.toNat < 0xE0 := hshort
  obtain ⟨hrange, -⟩ := isSecondOf_bounds hsecond
  refine spells_of_high (fun offset rest => ?_) (by simp) ?_ (by omega)
  · rw [List.cons_append, List.singleton_append, decodeFrom.eq_def]
    simp only [hlow, hlead, hsecond, hshort, not_true, if_false, if_true, List.length_cons,
      List.length_nil]
  · simp only [List.forall_mem_cons, List.not_mem_nil, false_imp_iff, implies_true, and_true]
    omega

theorem spells_three (hlong : ¬ lead < 0xE0) (hshort : lead < 0xF0)
    (hthird : isContinuation third = true) :
    Spells [lead, second, third]
      (Char.ofNat ((lead.toNat % 16 * 64 + tailBits second) * 64 + tailBits third)) := by
  have hbound : 0xE0 ≤ lead.toNat := Nat.le_of_not_lt hlong
  have hbound' : lead.toNat < 0xF0 := hshort
  obtain ⟨hrange, hfirst, -⟩ := isSecondOf_bounds hsecond
  have hrange' := isContinuation_iff.mp hthird
  refine spells_of_high (fun offset rest => ?_) (by simp) ?_ ?_
  · rw [List.cons_append, List.cons_append, List.singleton_append, decodeFrom.eq_def]
    simp only [hlow, hlead, hsecond, hlong, hthird, hshort, not_true, if_false, if_true,
      List.length_cons, List.length_nil]
  · simp only [List.forall_mem_cons, List.not_mem_nil, false_imp_iff, implies_true, and_true]
    omega
  · rw [tailBits, tailBits]
    omega

theorem spells_four (hlong : ¬ lead < 0xF0) (hthird : isContinuation third = true)
    (hfourth : isContinuation fourth = true) :
    Spells [lead, second, third, fourth]
      (Char.ofNat (((lead.toNat % 8 * 64 + tailBits second) * 64 + tailBits third) * 64
        + tailBits fourth)) := by
  have hbound : 0xF0 ≤ lead.toNat := Nat.le_of_not_lt hlong
  have hbound' : lead.toNat ≤ 0xF4 := Nat.le_of_not_lt fun h => hlead (.inr h)
  have hshort : ¬ lead < 0xE0 := Nat.not_lt_of_le (Nat.le_trans (by decide) hbound)
  obtain ⟨hrange, -, hfirst⟩ := isSecondOf_bounds hsecond
  have hrange' := isContinuation_iff.mp hthird
  have hrange'' := isContinuation_iff.mp hfourth
  refine spells_of_high (fun offset rest => ?_) (by simp) ?_ ?_
  · rw [List.cons_append, List.cons_append, List.cons_append, List.singleton_append,
      decodeFrom.eq_def]
    simp only [hlow, hlead, hsecond, hshort, hthird, hlong, hfourth, not_true, if_false,
      List.length_cons, List.length_nil]
  · simp only [List.forall_mem_cons, List.not_mem_nil, false_imp_iff, implies_true, and_true]
    omega
  · rw [tailBits, tailBits, tailBits]
    omega

end Sequences

theorem first_character (offset : Nat) {bytes : Bytes} (h : bytes ≠ []) :
    (∃ front rest c, bytes = front ++ rest ∧ Spells front c) ∨
      ∃ fault rest, decodeFrom offset bytes = .error fault ∧ bytes = fault.byte :: rest ∧
        fault.offset = offset := by
  rw [decodeFrom.eq_def]
  split
  · exact absurd rfl h
  · rename_i lead rest
    split
    · rename_i hlow
      exact .inl ⟨[lead], rest, _, rfl, spells_one hlow⟩
    · rename_i hlow
      split
      · exact .inr ⟨_, rest, rfl, rfl, rfl⟩
      · rename_i hlead
        split
        · exact .inr ⟨_, [], rfl, rfl, rfl⟩
        · rename_i second rest
          split
          · exact .inr ⟨_, second :: rest, rfl, rfl, rfl⟩
          · rename_i hsecond
            rw [not_not] at hsecond
            split
            · rename_i hshort
              exact .inl ⟨[lead, second], rest, _, rfl, spells_two hlow hlead hsecond hshort⟩
            · rename_i hlong
              split
              · exact .inr ⟨_, [second], rfl, rfl, rfl⟩
              · rename_i third rest
                split
                · exact .inr ⟨_, second :: third :: rest, rfl, rfl, rfl⟩
                · rename_i hthird
                  rw [not_not] at hthird
                  split
                  · rename_i hshort
                    exact .inl ⟨[lead, second, third], rest, _, rfl,
                      spells_three hlow hlead hsecond hlong hshort hthird⟩
                  · rename_i hlonger
                    split
                    · exact .inr ⟨_, [second, third], rfl, rfl, rfl⟩
                    · rename_i fourth rest
                      split
                      · exact .inr ⟨_, second :: third :: fourth :: rest, rfl, rfl, rfl⟩
                      · rename_i hfourth
                        rw [not_not] at hfourth
                        exact .inl ⟨[lead, second, third, fourth], rest, _, rfl,
                          spells_four hlow hlead hsecond hlonger hthird hfourth⟩

theorem decodeFrom_error {offset : Nat} {bytes : Bytes} {fault : DecodeFault}
    (h : decodeFrom offset bytes = .error fault) :
    ∃ front rest text, bytes = front ++ fault.byte :: rest ∧ fault.offset = offset + front.length ∧
      (∀ offset, decodeFrom offset front = .ok text) ∧ front.count 10 = text.count '\n' := by
  induction hlength : bytes.length using Nat.strong_induction_on generalizing offset bytes with
  | _ n ih =>
      have hne : bytes ≠ [] := by
        rintro rfl
        simp [decodeFrom] at h
      rcases first_character offset hne with ⟨first, more, c, rfl, hspells⟩ |
          ⟨fault', rest, hfault, hbytes, hoffset⟩
      · have hpos : 0 < first.length := List.length_pos_of_ne_nil hspells.ne_nil
        rw [hspells.decode] at h
        cases hmore : decodeFrom (offset + first.length) more with
        | ok t => simp [hmore, Except.map] at h
        | error fault' =>
            rw [hmore, Except.map, Except.error.injEq] at h
            subst h
            have hshorter : more.length < n := by
              rw [← hlength, List.length_append]
              omega
            obtain ⟨front, rest, t, rfl, hoffset, hdecode, hcount⟩ := ih _ hshorter hmore rfl
            refine ⟨first ++ front, rest, c :: t, by rw [List.append_assoc], ?_, ?_, ?_⟩
            · rw [hoffset, List.length_append, Nat.add_assoc]
            · intro offset
              rw [hspells.decode, hdecode]
              rfl
            · rw [List.count_append, hspells.count, hcount, ← List.count_append]
              rfl
      · rw [hfault, Except.error.injEq] at h
        subst h
        exact ⟨[], rest, [], hbytes, hoffset, fun _ => rfl, rfl⟩

/-! ### Line feeds and line breaks -/

/-- How many carriage returns have no line feed behind them. -/
def loneReturns : Text → Nat
  | [] => 0
  | '\r' :: '\n' :: rest => loneReturns rest
  | c :: rest => if c = '\r' then loneReturns rest + 1 else loneReturns rest

theorem count_newline_add_loneReturns (t : Text) :
    t.count '\n' + loneReturns t = countLineBreaks t := by
  fun_induction loneReturns t with
  | case1 => rfl
  | case2 rest ih =>
      rw [countLineBreaks, ← ih]
      simp
      omega
  | case3 rest hnot ih =>
      rw [countLineBreaks, if_pos (.inl rfl), ← ih]
      · simp
        omega
      · exact hnot
  | case4 c rest hnot hc ih =>
      rw [countLineBreaks, ← ih, List.count_cons]
      · by_cases hn : c = '\n'
        · simp [hn]
          omega
        · simp [hc, hn]
      · exact hnot

theorem line_positionBehind (t : Text) : (positionBehind t).line = t.count '\n' + 1 := by
  have hall (p : Position) : (t.foldl Position.advance p).line = p.line + t.count '\n' := by
    induction t generalizing p with
    | nil => rfl
    | cons c t ih =>
        rw [List.foldl_cons, ih, Position.advance]
        by_cases hc : c = '\n'
        · subst hc
          simp
          omega
        · simp [hc]
  rw [positionBehind, hall, Nat.add_comm]

end Text

/-! ### Declarations that break off -/

namespace Header

/-- A place of the text at which something begins that is no trivium. -/
structure Stands (t here : Text) : Prop where
  suffix : here <:+ t
  ne_nil : here ≠ []
  stop : afterTrivium? here = none

theorem Stands.mono {t u here : Text} (h : Stands t here) (hsuffix : t <:+ u) : Stands u here :=
  ⟨h.suffix.trans hsuffix, h.ne_nil, h.stop⟩

theorem stands_skipTrivia {t : Text} (h : skipTrivia t ≠ []) : Stands t (skipTrivia t) :=
  ⟨skipTrivia_suffix t, h, afterTrivium?_skipTrivia t⟩

theorem finish_error {t u last : Text} {point : Point} {fault : Fault}
    (h : finish last point (Tokens.read t) = .error fault) (hlast : Stands u last) (hsuffix : t <:+ u) :
    Stands u fault.here := by
  induction t using tokens_induction generalizing last point with
  | step t ih =>
      have hskip : skipTrivia t <:+ u := (skipTrivia_suffix t).trans hsuffix
      cases htoken : readToken? (skipTrivia t) with
      | none =>
          rw [read_of_none htoken] at h
          by_cases hnil : skipTrivia t = []
          · rw [hnil, finish, Except.error.injEq] at h
            rwa [← h]
          · have hstands := (stands_skipTrivia hnil).mono hsuffix
            rw [finish, Except.error.injEq] at h
            · rwa [← h]
            · exact hnil
      | some found =>
          obtain ⟨token, rest⟩ := found
          have hne : skipTrivia t ≠ [] := by
            intro hnil
            simp [hnil, readToken?, readName?, readSymbol?] at htoken
          have hstands := (stands_skipTrivia hne).mono hsuffix
          by_cases hsemicolon : token = .symbol .semicolon
          · subst hsemicolon
            rw [read_of_semicolon htoken, finish] at h
            split at h
            · simp at h
            · rw [Except.error.injEq] at h
              rwa [← h]
          · rw [read_of_token htoken hsemicolon, finish.eq_def] at h
            dsimp only at h
            split at h
            · exact ih token rest htoken h hstands ((readToken?_suffix htoken).trans hskip)
            · split at h <;> (rw [Except.error.injEq] at h; rwa [← h])

theorem stands_of_opens {t rest : Text} {point : Point} (h : Opens t rest point) : Stands t t := by
  refine ⟨List.suffix_refl t, ?_, by simpa using h.afterTrivium?_append []⟩
  rintro rfl
  obtain rfl := List.suffix_nil.mp h.suffix
  cases h with
  | directive h => exact absurd (afterUsing?_eq_some_iff.mp h).1 (by simp)
  | globalDirective h _ => exact absurd (afterGlobal?_eq_some_iff.mp h).1 (by simp)
  | externAlias h => exact absurd (afterExtern?_eq_some_iff.mp h).1 (by simp)

theorem readDeclaration?_error {t : Text} {fault : Fault}
    (h : readDeclaration? t = some (.error fault)) : Stands t fault.here := by
  rw [readDeclaration?] at h
  split at h
  · rename_i rest hrest
    have hopens : Opens t rest .opening := .directive hrest
    exact finish_error (Option.some.inj h) (stands_of_opens hopens) hopens.suffix
  · split at h
    · rename_i rest hrest
      have hsuffix : skipTrivia rest <:+ t := (skipTrivia_suffix rest).trans (afterWord?_suffix hrest)
      dsimp only at h
      split at h
      · rename_i rest' hrest'
        have hopens : Opens (skipTrivia rest) rest' .opening := .directive hrest'
        exact finish_error (Option.some.inj h) ((stands_of_opens hopens).mono hsuffix)
          (hopens.suffix.trans hsuffix)
      · obtain ⟨-, gap, more, rfl, -, hgap, -⟩ := afterGlobal?_eq_some_iff.mp hrest
        have husing := suffix_skipTrivia_of_blank hgap
          (show afterTrivium? ("using".toList ++ more) = none from afterTrivium?_of_isWordChar _ (by decide))
        have hne : skipTrivia (gap ++ ("using".toList ++ more)) ≠ [] := by
          intro hnil
          rw [hnil] at husing
          simpa using List.suffix_nil.mp husing
        rw [Option.some.injEq, Except.error.injEq] at h
        rw [← h]
        exact ⟨hsuffix, hne, afterTrivium?_skipTrivia _⟩
    · split at h
      · rename_i rest hrest
        have hopens : Opens t rest .aliasWord := .externAlias hrest
        exact finish_error (Option.some.inj h) (stands_of_opens hopens) hopens.suffix
      · simp at h

theorem declarations_error {t : Text} {fault : Fault} (h : declarations t = .error fault) :
    Stands t fault.here := by
  induction t using declarations_induction with
  | step t ih =>
      cases hread : readDeclaration? (skipTrivia t) with
      | none =>
          rw [declarations_of_none hread] at h
          simp at h
      | some result =>
          cases result with
          | error fault' =>
              rw [declarations_of_error hread, Except.error.injEq] at h
              exact h ▸ (readDeclaration?_error hread).mono (skipTrivia_suffix t)
          | ok after =>
              rw [declarations_of_ok hread, prepend_eq_error_iff] at h
              obtain ⟨front, hfront⟩ := readDeclaration?_ok hread
              have hafter : after <:+ skipTrivia t :=
                hfront ▸ (List.suffix_cons ';' after).trans (List.suffix_append front _)
              exact (ih after hread h).mono (hafter.trans (skipTrivia_suffix t))

theorem Stands.exists_cons {t here : Text} (h : Stands t here) :
    ∃ c more, here = c :: more ∧ isLineEnd c = false := by
  obtain ⟨c, more, rfl⟩ := List.exists_cons_of_ne_nil h.ne_nil
  refine ⟨c, more, rfl, Bool.eq_false_iff.mpr fun hend => ?_⟩
  have hgap : isGap c = true := by
    rw [isLineEnd, Bool.or_eq_true, beq_iff_eq, beq_iff_eq] at hend
    rcases hend with rfl | rfl <;> rfl
  exact absurd h.stop (by simp [afterTrivium?_of_isGap more hgap])

theorem Stands.row {front here : Text} (h : Stands (front ++ here) here) :
    ∃ row behind, here = row ++ behind ∧ row ≠ [] ∧
      (splitLines (front ++ here))[countLineBreaks front]? = some (openLine front ++ row) := by
  obtain ⟨c, more, rfl, hc⟩ := h.exists_cons
  rw [isLineEnd, Bool.or_eq_false_iff, beq_eq_false_iff_ne, beq_eq_false_iff_ne] at hc
  have hcut : ¬ PartsBreak front (c :: more) := fun hparts => hc.2 (Option.some.inj hparts.2)
  obtain ⟨row, rows, hrows⟩ := List.exists_cons_of_ne_nil (splitLines_ne_nil h.ne_nil)
  have hrow : (breakLines (c :: more))[0]? = some row :=
    getElem?_breakLines_of_splitLines (by rw [hrows]; rfl)
  obtain ⟨behind, hbehind⟩ := prefix_drop_lineStart hrow
  rw [lineStart_zero, List.drop_zero] at hbehind
  refine ⟨row, behind, hbehind.symm, ?_, ?_⟩
  · rintro rfl
    rw [breakLines_char more hc.1 hc.2, ← List.head?_eq_getElem?, List.head?_modifyHead] at hrow
    simp at hrow
  · rw [splitLines_append hcut (by simp), hrows, List.getElem?_append_right (by simp [length_closedLines]),
      length_closedLines, Nat.sub_self]
    rfl

end Header

/-! ### Reports -/

/-- The fault of bytes that are no text is located where the decoder stopped, and that of a header
where the declaration broke off, each by the line feeds in front of it: on its own line, but for the
carriage returns in front of it that stand alone. -/
theorem fault_lines (p : Path) (content : Bytes) (f : Fragment) :
    (∀ fault, Sources.fragmentOf p content = .error fault →
      ∃ front rest t d, ∃ line : Nat, dropByteOrderMark content = front ++ d.byte :: rest ∧
        decode (dropByteOrderMark content) = .error d ∧ d.offset = front.length ∧
        decode front = .ok t ∧ fault.line = some (line : Int) ∧
        line + loneReturns t = 1 + countLineBreaks t) ∧
    ∀ fault, Import.ofFragment f = .error fault →
      ∃ front here cause row behind, ∃ line : Nat,
        Header.split f.text = .error ⟨here, cause⟩ ∧ f.text = front ++ here ∧
        here = row ++ behind ∧ row ≠ [] ∧
        f.lines[countLineBreaks front]? = some (openLine front ++ row) ∧
        fault.line = some (line : Int) ∧ line + loneReturns front = 1 + countLineBreaks front := by
  constructor
  · intro fault h
    rw [Sources.fragmentOf] at h
    cases hdecode : decode (dropByteOrderMark content) with
    | ok t => simp [hdecode] at h
    | error d =>
        simp only [hdecode, Except.error.injEq] at h
        obtain ⟨front, rest, t, hbytes, hoffset, hfront, hcount⟩ := decodeFrom_error hdecode
        rw [Nat.zero_add] at hoffset
        refine ⟨front, rest, t, d, Sources.lineOf (dropByteOrderMark content) d.offset, hbytes, rfl,
          hoffset, hfront 0, by rw [← h], ?_⟩
        rw [Sources.lineOf, hoffset, hbytes, List.take_left, hcount, ← count_newline_add_loneReturns]
        omega
  · intro fault h
    rw [Import.ofFragment] at h
    cases hsplit : Header.split f.text with
    | ok s => simp [hsplit] at h
    | error fault' =>
        simp only [hsplit, Except.error.injEq] at h
        have hstands := Header.declarations_error (Header.split_eq_error_iff.mp hsplit)
        obtain ⟨front, hfront⟩ := hstands.suffix
        have hbefore : Header.before f.text fault'.here = front := by
          rw [← hfront, Header.before_append]
        rw [← hfront] at hstands
        obtain ⟨row, behind, hrow, hne, hline⟩ := hstands.row
        refine ⟨front, fault'.here, fault'.cause, row, behind, (fault'.position f.text).line, rfl,
          hfront.symm, hrow, hne, ?_, by rw [← h], ?_⟩
        · rw [Fragment.lines, ← hfront]
          exact hline
        · rw [Header.Fault.position, hbefore, line_positionBehind, ← count_newline_add_loneReturns]
          omega

/-- Bytes and a declaration that break off on a third line, of which one break is a carriage return. -/
theorem fault_lines_behind_return :
    (Sources.fragmentOf (Path.ofText "/a") [0x61, 0x0D, 0x0D, 0x0A, 0xFF] =
        .error ⟨some "/a", "source file is not valid UTF-8 (byte 0xff)", some 2, none⟩ ∧
      ∃ front t, ∃ line : Nat, decode front = .ok t ∧ (2 : Int) = line ∧
        line + loneReturns t = 1 + countLineBreaks t) ∧
    Import.ofFragment ⟨"/a", "using A;\r\r\nextern alias ;"⟩ =
        .error ⟨some "/a", "unexpected token ';' in header declaration", some 2, some 14⟩ ∧
      ∃ front here, ∃ line : Nat, "using A;\r\r\nextern alias ;".toList = front ++ here ∧
        (2 : Int) = line ∧ line + loneReturns front = 1 + countLineBreaks front := by
  have hbytes : Sources.fragmentOf (Path.ofText "/a") [0x61, 0x0D, 0x0D, 0x0A, 0xFF] =
      .error ⟨some "/a", "source file is not valid UTF-8 (byte 0xff)", some 2, none⟩ := rfl
  have hheader : Import.ofFragment ⟨"/a", "using A;\r\r\nextern alias ;"⟩ =
      .error ⟨some "/a", "unexpected token ';' in header declaration", some 2, some 14⟩ := rfl
  obtain ⟨hread, hsplit⟩ := fault_lines (Path.ofText "/a") [0x61, 0x0D, 0x0D, 0x0A, 0xFF]
    ⟨"/a", "using A;\r\r\nextern alias ;"⟩
  obtain ⟨front, _, t, _, line, -, -, -, hfront, hline, hcount⟩ := hread _ hbytes
  obtain ⟨front', here, _, _, _, line', -, htext, -, -, -, hline', hcount'⟩ := hsplit _ hheader
  exact ⟨⟨hbytes, front, t, line, hfront, Option.some.inj hline, hcount⟩, hheader, front', here, line',
    htext, Option.some.inj hline', hcount'⟩

end ScriptWeave
