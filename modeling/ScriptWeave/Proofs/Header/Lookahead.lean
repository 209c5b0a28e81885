import Mathlib.Data.List.TakeWhile
import ScriptWeave.Proofs.Header.Rest

/-!
What the look-aheads of a keyword find. Each is a test on the runs of characters at the start of a
text; here each is stated as a way to cut the text, which is free to end a run early. The two agree
because the run that counts is always followed by a character that cannot belong to it.
-/

namespace ScriptWeave.Header

open Text

abbrev Consists (p : Char → Bool) (t : Text) : Prop := ∀ c ∈ t, p c = true

def Parts (p : Char → Bool) (t : Text) : Prop := ∀ c, t.head? = some c → p c = false

section Runs

variable {p : Char → Bool} {run t : Text}

theorem takeWhile_of_parts (hrun : Consists p run) (ht : Parts p t) :
    (run ++ t).takeWhile p = run := by
  rw [List.takeWhile_append_of_pos hrun]
  cases t with
  | nil => simp
  | cons c t => rw [List.takeWhile_cons_of_neg (by simp [ht c rfl]), List.append_nil]

theorem dropWhile_of_parts (hrun : Consists p run) (ht : Parts p t) :
    (run ++ t).dropWhile p = t := by
  rw [List.dropWhile_append_of_pos hrun]
  cases t with
  | nil => simp
  | cons c t => rw [List.dropWhile_cons_of_neg (by simp [ht c rfl])]

theorem consists_takeWhile (p : Char → Bool) (t : Text) : Consists p (t.takeWhile p) :=
  fun _ => List.mem_takeWhile_imp

theorem parts_dropWhile (p : Char → Bool) (t : Text) : Parts p (t.dropWhile p) := by
  intro c hc
  have hnot := List.head?_dropWhile_not p t
  simpa [hc] using hnot

theorem parts_cons {c : Char} (t : Text) (hc : p c = false) : Parts p (c :: t) := by
  intro d hd
  obtain rfl : c = d := by simpa using hd
  exact hc

end Runs

/-! ### Classes that do not meet -/

theorem not_inRanges_of_apart {ranges others : List (Nat × Nat)}
    (h : (ranges.all fun r => others.all fun q => r.2 < q.1 || q.2 < r.1) = true) {n : Nat}
    (hn : inRanges ranges n = true) : inRanges others n = false := by
  obtain ⟨r, hr, hnr⟩ := List.any_eq_true.mp hn
  rw [inRanges, List.any_eq_false]
  intro q hq hnq
  have hapart := List.all_eq_true.mp (List.all_eq_true.mp h r hr) q hq
  simp only [Bool.and_eq_true, decide_eq_true_eq] at hnr hnq
  simp only [Bool.or_eq_true, decide_eq_true_eq] at hapart
  omega

theorem bounds_of_isAlphanum {c : Char} (h : c.isAlphanum = true) :
    48 ≤ c.toNat ∧ c.toNat ≤ 122 := by
  change ((decide (65 ≤ c.val ∧ c.val ≤ 90) || (decide (97 ≤ c.val) && decide (c.val ≤ 122))) ||
    (decide (48 ≤ c.val) && decide (c.val ≤ 57))) = true at h
  simp only [Bool.or_eq_true, Bool.and_eq_true, decide_eq_true_eq, UInt32.le_iff_toNat_le] at h
  have hranges : ((65 ≤ c.toNat ∧ c.toNat ≤ 90) ∨ (97 ≤ c.toNat ∧ c.toNat ≤ 122)) ∨
      (48 ≤ c.toNat ∧ c.toNat ≤ 57) := h
  omega

theorem not_isBlank_of_isWordChar {c : Char} (h : isWordChar c = true) : isBlank c = false := by
  rw [isWordChar] at h
  split at h
  · rw [Bool.or_eq_true, beq_iff_eq] at h
    rcases h with h | rfl
    · obtain ⟨hlow, hhigh⟩ := bounds_of_isAlphanum h
      rw [isBlank, inRanges, List.any_eq_false]
      intro r hr
      simp only [blankRanges, List.mem_cons, List.not_mem_nil, or_false] at hr
      rcases hr with rfl | rfl | rfl | rfl | rfl | rfl | rfl | rfl | rfl | rfl <;> simp <;> omega
    · decide
  · exact not_inRanges_of_apart (by decide +kernel) h

theorem isTargetChar_of_isWordChar {c : Char} (h : isWordChar c = true) :
    isTargetChar c = true := by
  simp [isTargetChar, h]

theorem isTargetChar_of_isBlank {c : Char} (h : isBlank c = true) : isTargetChar c = true := by
  simp [isTargetChar, h]

theorem parts_isBlank_of_word {name t : Text} (hname : Consists isWordChar name)
    (hne : name ≠ []) : Parts isBlank (name ++ t) := by
  obtain ⟨c, name, rfl⟩ := List.exists_cons_of_ne_nil hne
  exact parts_cons _ (not_isBlank_of_isWordChar (hname c List.mem_cons_self))

/-! ### Names -/

theorem isWordChar_of_isNameStart {c : Char} (h : isNameStart c = true) : isWordChar c = true := by
  rw [isNameStart, Bool.and_eq_true] at h
  exact h.1

def IsName (w : Text) : Prop :=
  ∃ mark c body, w = mark ++ c :: body ∧ (mark = [] ∨ mark = ['@']) ∧ isNameStart c = true ∧
    Consists isWordChar body

theorem readName?_plain {c : Char} (t : Text) (hc : isNameStart c = true) :
    readName? (c :: t) = some (c :: t.takeWhile isWordChar, t.dropWhile isWordChar) := by
  simp only [readName?, hc, if_true]

theorem readName?_marked {c : Char} (t : Text) (hc : isNameStart c = true) :
    readName? ('@' :: c :: t) =
      some ('@' :: c :: t.takeWhile isWordChar, t.dropWhile isWordChar) := by
  have hmark : isNameStart '@' = false := by decide
  simp [readName?, hc, hmark]

theorem readName?_eq_some_iff {t w rest : Text} :
    readName? t = some (w, rest) ↔ t = w ++ rest ∧ IsName w ∧ Parts isWordChar rest := by
  constructor
  · intro h
    rw [readName?.eq_def] at h
    split at h
    · simp at h
    · rename_i c t
      split at h
      · rename_i hc
        obtain ⟨rfl, rfl⟩ := by simpa using h
        refine ⟨by simp [List.takeWhile_append_dropWhile], ?_, parts_dropWhile _ t⟩
        exact ⟨[], c, _, rfl, Or.inl rfl, hc, consists_takeWhile _ t⟩
      · split at h
        · rename_i hmark
          subst hmark
          split at h
          · simp at h
          · rename_i d t
            split at h
            · rename_i hd
              obtain ⟨rfl, rfl⟩ := by simpa using h
              refine ⟨by simp [List.takeWhile_append_dropWhile], ?_, parts_dropWhile _ t⟩
              exact ⟨['@'], d, _, rfl, Or.inr rfl, hd, consists_takeWhile _ t⟩
            · simp at h
        · simp at h
  · rintro ⟨rfl, ⟨mark, c, body, rfl, rfl | rfl, hc, hbody⟩, hrest⟩
    · rw [List.nil_append, List.cons_append, readName?_plain _ hc, takeWhile_of_parts hbody hrest,
        dropWhile_of_parts hbody hrest]
    · rw [List.cons_append, List.nil_append, List.cons_append, List.cons_append,
        readName?_marked _ hc, takeWhile_of_parts hbody hrest, dropWhile_of_parts hbody hrest]

/-! ### Targets and aliases -/

def TargetFollows (t : Text) : Prop :=
  ∃ target rest, t = target ++ ';' :: rest ∧ target ≠ [] ∧ Consists isTargetChar target

theorem targetAhead_iff {t : Text} : targetAhead t = true ↔ TargetFollows t := by
  constructor
  · intro h
    rw [targetAhead] at h
    split at h
    · rename_i c target rest htarget hrest
      refine ⟨t.takeWhile isTargetChar, rest, ?_, by simp [htarget], consists_takeWhile _ t⟩
      rw [← hrest, List.takeWhile_append_dropWhile]
    · simp at h
  · rintro ⟨target, rest, rfl, hne, htarget⟩
    have hparts : Parts isTargetChar (';' :: rest) := parts_cons rest (by decide)
    obtain ⟨c, target', rfl⟩ := List.exists_cons_of_ne_nil hne
    rw [targetAhead, takeWhile_of_parts htarget hparts, dropWhile_of_parts htarget hparts]
    rfl

theorem TargetFollows.append_left {lead t : Text} (h : TargetFollows t)
    (hlead : Consists isTargetChar lead) : TargetFollows (lead ++ t) := by
  obtain ⟨target, rest, rfl, hne, htarget⟩ := h
  refine ⟨lead ++ target, rest, by rw [List.append_assoc], by simp [hne], ?_⟩
  intro c hc
  rcases List.mem_append.mp hc with hc | hc
  · exact hlead c hc
  · exact htarget c hc

theorem TargetFollows.append_right {t : Text} (h : TargetFollows t) (more : Text) :
    TargetFollows (t ++ more) := by
  obtain ⟨target, rest, rfl, hne, htarget⟩ := h
  exact ⟨target, rest ++ more, by simp, hne, htarget⟩

def WordFollows (t : Text) : Prop :=
  ∃ name gap rest, t = name ++ (gap ++ '=' :: rest) ∧ name ≠ [] ∧ Consists isWordChar name ∧
    Consists isBlank gap ∧ TargetFollows rest

def AliasFollows (t : Text) : Prop :=
  ∃ mark more, t = mark ++ more ∧ (mark = [] ∨ mark = ['@']) ∧ WordFollows more

theorem aliasAhead_mark (t : Text) :
    aliasAhead ('@' :: t) = true ↔ WordFollows t := by
  rw [aliasAhead]
  constructor
  · intro h
    split at h
    · rename_i c name rest hname hrest
      refine ⟨t.takeWhile isWordChar, (t.dropWhile isWordChar).takeWhile isBlank, rest, ?_,
        by simp [hname], consists_takeWhile _ t, consists_takeWhile _ _, targetAhead_iff.mp h⟩
      rw [← hrest, List.takeWhile_append_dropWhile, List.takeWhile_append_dropWhile]
    · simp at h
  · rintro ⟨name, gap, rest, rfl, hne, hname, hgap, hrest⟩
    have hequals : Parts isBlank ('=' :: rest) := parts_cons rest (by decide)
    have hparts : Parts isWordChar (gap ++ '=' :: rest) := by
      cases gap with
      | nil => exact parts_cons rest (by decide)
      | cons c gap =>
          refine parts_cons _ ?_
          by_contra hword
          have hblank := not_isBlank_of_isWordChar (Bool.of_not_eq_false hword)
          rw [hgap c List.mem_cons_self] at hblank
          exact absurd hblank (by decide)
    obtain ⟨c, name', rfl⟩ := List.exists_cons_of_ne_nil hne
    rw [takeWhile_of_parts hname hparts, dropWhile_of_parts hname hparts,
      dropWhile_of_parts hgap hequals]
    exact targetAhead_iff.mpr hrest

theorem aliasAhead_of_no_mark {t : Text} (h : ∀ more, t ≠ '@' :: more) :
    aliasAhead t = aliasAhead ('@' :: t) := by
  simp only [aliasAhead]

theorem aliasAhead_iff {t : Text} : aliasAhead t = true ↔ AliasFollows t := by
  by_cases hmark : ∃ more, t = '@' :: more
  · obtain ⟨more, rfl⟩ := hmark
    rw [aliasAhead_mark]
    constructor
    · exact fun h => ⟨['@'], more, rfl, Or.inr rfl, h⟩
    · rintro ⟨mark, more', ht, rfl | rfl, hmore⟩
      · obtain ⟨name, gap, rest, rfl, hne, hname, -, -⟩ := hmore
        obtain ⟨c, name', rfl⟩ := List.exists_cons_of_ne_nil hne
        obtain ⟨rfl, -⟩ := List.cons.inj ht
        exact absurd (hname '@' List.mem_cons_self) (by decide)
      · obtain ⟨-, rfl⟩ := List.cons.inj ht
        exact hmore
  · rw [aliasAhead_of_no_mark fun more ht => hmark ⟨more, ht⟩, aliasAhead_mark]
    constructor
    · exact fun h => ⟨[], t, rfl, Or.inl rfl, h⟩
    · rintro ⟨mark, more, rfl, rfl | rfl, hmore⟩
      · exact hmore
      · exact absurd ⟨more, rfl⟩ hmark

theorem AliasFollows.parts_isBlank {t : Text} (h : AliasFollows t) : Parts isBlank t := by
  obtain ⟨mark, more, rfl, rfl | rfl, name, gap, rest, rfl, hne, hname, -⟩ := h
  · rw [List.nil_append]
    exact parts_isBlank_of_word hname hne
  · exact parts_cons _ (by decide)

theorem AliasFollows.append_right {t : Text} (h : AliasFollows t) (more : Text) :
    AliasFollows (t ++ more) := by
  obtain ⟨mark, behind, rfl, hmark, name, gap, rest, rfl, hne, hname, hgap, hrest⟩ := h
  exact ⟨mark, _, List.append_assoc _ _ _, hmark, name, gap, rest ++ more, by simp, hne, hname,
    hgap, hrest.append_right more⟩

/-! ### Keywords -/

theorem startsBlank_iff {t : Text} :
    startsBlank t = true ↔ ∃ c rest, t = c :: rest ∧ isBlank c = true := by
  cases t with
  | nil => simp [startsBlank]
  | cons c rest => simp [startsBlank]

def DirectiveFollows (t : Text) : Prop :=
  ∃ gap more, t = gap ++ more ∧ gap ≠ [] ∧ Consists isBlank gap ∧
    (TargetFollows more ∨ AliasFollows more ∨
      ∃ gap' more', more = "static".toList ++ (gap' ++ more') ∧ gap' ≠ [] ∧
        Consists isBlank gap' ∧ AliasFollows more')

theorem DirectiveFollows.append_right {t : Text} (h : DirectiveFollows t) (rest : Text) :
    DirectiveFollows (t ++ rest) := by
  obtain ⟨gap, more, rfl, hne, hgap, hmore⟩ := h
  refine ⟨gap, more ++ rest, List.append_assoc _ _ _, hne, hgap, ?_⟩
  rcases hmore with htarget | halias | ⟨gap', more', rfl, hne', hgap', halias⟩
  · exact Or.inl (htarget.append_right rest)
  · exact Or.inr (Or.inl (halias.append_right rest))
  · exact Or.inr (Or.inr ⟨gap', more' ++ rest, by simp, hne', hgap', halias.append_right rest⟩)

theorem exists_blanks {t : Text} (h : startsBlank t = true) :
    ∃ gap, t = gap ++ t.dropWhile isBlank ∧ gap ≠ [] ∧ Consists isBlank gap := by
  obtain ⟨c, rest, rfl, hc⟩ := startsBlank_iff.mp h
  refine ⟨(c :: rest).takeWhile isBlank, List.takeWhile_append_dropWhile.symm, ?_,
    consists_takeWhile _ _⟩
  simp [hc]

theorem startsBlank_append {gap : Text} (more : Text) (hne : gap ≠ [])
    (hgap : Consists isBlank gap) : startsBlank (gap ++ more) = true := by
  obtain ⟨c, gap, rfl⟩ := List.exists_cons_of_ne_nil hne
  exact hgap c List.mem_cons_self

def behindStatic (t : Text) : Text :=
  match afterPrefix? "static" t with
  | none => []
  | some rest => if startsBlank rest then rest.dropWhile isBlank else []

theorem aliasAhead_behindStatic_iff {t : Text} :
    aliasAhead (behindStatic t) = true ↔
      ∃ gap more, t = "static".toList ++ (gap ++ more) ∧ gap ≠ [] ∧ Consists isBlank gap ∧
        AliasFollows more := by
  constructor
  · intro h
    rw [behindStatic] at h
    split at h
    · exact absurd h (by decide)
    · rename_i rest hrest
      split at h
      · rename_i hblank
        obtain ⟨gap, hgap, hne, hall⟩ := exists_blanks hblank
        exact ⟨gap, rest.dropWhile isBlank, by rw [← hgap]; exact afterPrefix?_eq_some_iff.mp hrest,
          hne, hall, aliasAhead_iff.mp h⟩
      · exact absurd h (by decide)
  · rintro ⟨gap, more, rfl, hne, hgap, halias⟩
    rw [behindStatic, afterPrefix?_eq_some_iff.mpr rfl]
    dsimp only
    rw [if_pos (startsBlank_append more hne hgap), dropWhile_of_parts hgap halias.parts_isBlank]
    exact aliasAhead_iff.mpr halias

def directiveAhead (t : Text) : Bool :=
  startsBlank t && (targetAhead (t.drop 1) || aliasAhead (t.dropWhile isBlank)
    || aliasAhead (behindStatic (t.dropWhile isBlank)))

theorem afterUsing?_eq (t : Text) :
    afterUsing? t = (afterPrefix? "using" t).filter directiveAhead := by
  rw [afterUsing?]
  cases afterPrefix? "using" t with
  | none => rfl
  | some rest => rfl

theorem directiveFollows_iff {t : Text} : directiveAhead t = true ↔ DirectiveFollows t := by
  rw [directiveAhead, Bool.and_eq_true, Bool.or_eq_true, Bool.or_eq_true, aliasAhead_behindStatic_iff,
    aliasAhead_iff, targetAhead_iff]
  constructor
  · rintro ⟨hblank, (htarget | halias) | hstatic⟩
    · obtain ⟨c, rest, rfl, hc⟩ := startsBlank_iff.mp hblank
      exact ⟨[c], rest, rfl, by simp, List.forall_mem_singleton.mpr hc, Or.inl htarget⟩
    · obtain ⟨gap, hgap, hne, hall⟩ := exists_blanks hblank
      exact ⟨gap, _, hgap, hne, hall, Or.inr (Or.inl halias)⟩
    · obtain ⟨gap, hgap, hne, hall⟩ := exists_blanks hblank
      exact ⟨gap, _, hgap, hne, hall, Or.inr (Or.inr hstatic)⟩
  · rintro ⟨gap, more, rfl, hne, hgap, htarget | halias | hstatic⟩
    · refine ⟨startsBlank_append more hne hgap, Or.inl (Or.inl ?_)⟩
      obtain ⟨c, gap, rfl⟩ := List.exists_cons_of_ne_nil hne
      exact htarget.append_left fun d hd =>
        isTargetChar_of_isBlank (hgap d (List.mem_cons_of_mem c hd))
    · refine ⟨startsBlank_append more hne hgap, Or.inl (Or.inr ?_)⟩
      rw [dropWhile_of_parts hgap halias.parts_isBlank]
      exact halias
    · refine ⟨startsBlank_append more hne hgap, Or.inr ?_⟩
      have hparts : Parts isBlank more := by
        obtain ⟨gap', more', rfl, -⟩ := hstatic
        exact parts_cons _ (by decide)
      rw [dropWhile_of_parts hgap hparts]
      exact hstatic

theorem afterUsing?_eq_some_iff {t rest : Text} :
    afterUsing? t = some rest ↔ t = "using".toList ++ rest ∧ DirectiveFollows rest := by
  rw [afterUsing?_eq, Option.filter_eq_some_iff, afterPrefix?_eq_some_iff, directiveFollows_iff]

def KeywordFollows (word t : Text) : Prop :=
  ∃ gap more, t = gap ++ (word ++ more) ∧ gap ≠ [] ∧ Consists isBlank gap ∧
    Parts isWordChar more

theorem wordAhead_iff {word t : Text} (hword : Consists isWordChar word) (hne : word ≠ []) :
    wordAhead word t = true ↔ KeywordFollows word t := by
  rw [wordAhead, Bool.and_eq_true]
  constructor
  · rintro ⟨hblank, h⟩
    obtain ⟨gap, hgap, hgapne, hall⟩ := exists_blanks hblank
    split at h
    · simp at h
    · rename_i hrest
      refine ⟨gap, [], ?_, hgapne, hall, by simp [Parts]⟩
      rw [← afterPrefix?_eq_some_iff.mp hrest]
      exact hgap
    · rename_i c rest hrest
      refine ⟨gap, c :: rest, ?_, hgapne, hall, parts_cons rest (by simpa using h)⟩
      rw [← afterPrefix?_eq_some_iff.mp hrest]
      exact hgap
  · rintro ⟨gap, more, rfl, hgapne, hgap, hparts⟩
    refine ⟨startsBlank_append _ hgapne hgap, ?_⟩
    rw [dropWhile_of_parts hgap (parts_isBlank_of_word hword hne),
      afterPrefix?_eq_some_iff.mpr rfl]
    cases more with
    | nil => rfl
    | cons c more => simpa using hparts c rfl

theorem KeywordFollows.append_right {word t : Text} (h : KeywordFollows word t) (rest : Text)
    (hword : ';' ∉ word) (hmem : ';' ∈ t) : KeywordFollows word (t ++ rest) := by
  obtain ⟨gap, more, rfl, hne, hgap, hparts⟩ := h
  refine ⟨gap, more ++ rest, by simp, hne, hgap, ?_⟩
  cases more with
  | nil =>
      rw [List.append_nil, List.mem_append] at hmem
      rcases hmem with hmem | hmem
      · exact absurd (hgap ';' hmem) (by decide)
      · exact absurd hmem hword
  | cons c more => exact parts_cons _ (hparts c rfl)

theorem afterGlobal?_eq_some_iff {t rest : Text} :
    afterGlobal? t = some rest ↔
      t = "global".toList ++ rest ∧ KeywordFollows "using" rest := by
  rw [afterGlobal?, Option.filter_eq_some_iff, afterPrefix?_eq_some_iff,
    wordAhead_iff (List.all_eq_true.mp (by decide)) (by decide)]

theorem afterExtern?_eq_some_iff {t rest : Text} :
    afterExtern? t = some rest ↔
      t = "extern".toList ++ rest ∧ KeywordFollows "alias" rest := by
  rw [afterExtern?, Option.filter_eq_some_iff, afterPrefix?_eq_some_iff,
    wordAhead_iff (List.all_eq_true.mp (by decide)) (by decide)]

end ScriptWeave.Header
