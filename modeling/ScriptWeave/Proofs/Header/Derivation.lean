import ScriptWeave.Proofs.Header.Lexical

/-!
What each point of a declaration stands for: the rows of terminals with which the grammar lets the
declaration go on from there. Reading a token leads from a point to the one that stands for what may
follow the token, so the points follow the grammar without ever going back.
-/

namespace ScriptWeave.Header

/-! ### Derivations that begin with a terminal -/

section Derivations

variable {f g h : Form} {k k' : Terminal} {r : Rule} {ks : List Terminal}

theorem derives_token_iff : Derives (.token k) ks ↔ ks = [k] := by
  constructor
  · rintro ⟨⟩
    rfl
  · rintro rfl
    exact .token k

theorem derives_sequence_iff :
    Derives (f ++ g) ks ↔ ∃ as bs, ks = as ++ bs ∧ Derives f as ∧ Derives g bs := by
  constructor
  · rintro ⟨⟩
    rename_i as bs hf hg
    exact ⟨as, bs, rfl, hf, hg⟩
  · rintro ⟨as, bs, rfl, hf, hg⟩
    exact .sequence hf hg

theorem derives_rule_iff : Derives (.rule r) ks ↔ Derives r.production ks := by
  constructor
  · rintro ⟨⟩
    assumption
  · exact .rule

theorem derives_optional_iff : Derives (.optional f) ks ↔ ks = [] ∨ Derives f ks := by
  constructor
  · rintro (_ | _)
    · exact Or.inl rfl
    · exact Or.inr ‹_›
  · rintro (rfl | hf)
    · exact .absent
    · exact .present hf

theorem derives_many_iff : Derives (.many f) ks ↔ ks = [] ∨ Derives (f ++ .many f) ks := by
  rw [derives_sequence_iff]
  constructor
  · rintro ⟨⟩
    · exact Or.inl rfl
    · exact Or.inr ⟨_, _, rfl, ‹_›, ‹_›⟩
  · rintro (rfl | ⟨as, bs, rfl, hf, hmany⟩)
    · exact .none
    · exact .more hf hmany

theorem derives_assoc : Derives (f ++ g ++ h) ks ↔ Derives (f ++ (g ++ h)) ks := by
  simp only [derives_sequence_iff]
  constructor
  · rintro ⟨_, cs, rfl, ⟨as, bs, rfl, hf, hg⟩, hh⟩
    exact ⟨as, bs ++ cs, List.append_assoc _ _ _, hf, bs, cs, rfl, hg, hh⟩
  · rintro ⟨as, _, rfl, hf, bs, cs, rfl, hg, hh⟩
    exact ⟨as ++ bs, cs, (List.append_assoc _ _ _).symm, ⟨as, bs, rfl, hf, hg⟩, hh⟩

theorem derives_token_first :
    Derives (.token k ++ g) ks ↔ ∃ ks', ks = k :: ks' ∧ Derives g ks' := by
  rw [derives_sequence_iff]
  constructor
  · rintro ⟨as, bs, rfl, hf, hg⟩
    rw [derives_token_iff] at hf
    subst hf
    exact ⟨bs, rfl, hg⟩
  · rintro ⟨ks', rfl, hg⟩
    exact ⟨[k], ks', rfl, .token k, hg⟩

theorem derives_token_cons : Derives (.token k ++ g) (k' :: ks) ↔ k' = k ∧ Derives g ks := by
  rw [derives_token_first]
  constructor
  · rintro ⟨ks', hks, hg⟩
    obtain ⟨rfl, rfl⟩ := List.cons.inj hks
    exact ⟨rfl, hg⟩
  · rintro ⟨rfl, hg⟩
    exact ⟨ks, rfl, hg⟩

theorem derives_last_token : Derives (.token k) (k' :: ks) ↔ k' = k ∧ ks = [] := by
  rw [derives_token_iff, List.cons.injEq]

theorem derives_congr_right (hg : ∀ as, Derives g as ↔ Derives h as) :
    Derives (f ++ g) ks ↔ Derives (f ++ h) ks := by
  simp only [derives_sequence_iff, hg]

theorem derives_rule : Derives (.rule r ++ g) ks ↔ Derives (r.production ++ g) ks := by
  simp only [derives_sequence_iff, derives_rule_iff]

theorem derives_optional :
    Derives (.optional f ++ g) ks ↔ Derives (f ++ g) ks ∨ Derives g ks := by
  simp only [derives_sequence_iff, derives_optional_iff]
  constructor
  · rintro ⟨as, bs, rfl, rfl | hf, hg⟩
    · exact Or.inr hg
    · exact Or.inl ⟨as, bs, rfl, hf, hg⟩
  · rintro (⟨as, bs, rfl, hf, hg⟩ | hg)
    · exact ⟨as, bs, rfl, Or.inr hf, hg⟩
    · exact ⟨[], ks, rfl, Or.inl rfl, hg⟩

theorem derives_many :
    Derives (.many f ++ g) ks ↔ Derives (f ++ (.many f ++ g)) ks ∨ Derives g ks := by
  rw [← derives_assoc]
  conv_lhs => rw [derives_sequence_iff]
  conv_rhs => rw [derives_sequence_iff]
  constructor
  · rintro ⟨as, bs, rfl, hmany, hg⟩
    rcases derives_many_iff.mp hmany with rfl | hf
    · exact Or.inr hg
    · exact Or.inl ⟨as, bs, rfl, hf, hg⟩
  · rintro (⟨as, bs, rfl, hf, hg⟩ | hg)
    · exact ⟨as, bs, rfl, derives_many_iff.mpr (Or.inr hf), hg⟩
    · exact ⟨[], ks, rfl, .none, hg⟩

end Derivations

/-! ### What may follow a point -/

namespace Form

/-- What may follow a part of a name outside all type arguments, or inside some lists of them. -/
def behindName : Nat → Form
  | 0 => mark .semicolon
  | depth + 1 =>
      optional (mark .question) ++ (many (rule .rankSpec) ++ (many (mark .comma ++ rule .typeArg) ++
        (mark .greater ++ (many (mark .dot ++ rule .namePart) ++ behindName depth))))

def behindPart (depth : Nat) : Form := many (mark .dot ++ rule .namePart) ++ behindName depth

def behindArgument (depth : Nat) : Form :=
  many (rule .rankSpec) ++ (many (mark .comma ++ rule .typeArg) ++
    (mark .greater ++ behindPart depth))

/-- A name outside all type arguments, or inside some lists of them, and what may follow it. -/
def wholeName (depth : Nat) : Form := rule .qualifiedName ++ behindName depth

def target : Form := optional (rule .aliasPart) ++ wholeName 0

end Form

open Form in
def Completes : Point → List Terminal → Prop
  | .opening, ks => Derives (optional (token .staticWord) ++ target) ks
  | .target, ks => Derives target ks
  | .firstName, ks => Derives target (.name :: ks)
  | .name depth, ks => Derives (wholeName depth) ks
  | .headName depth, ks => Derives (wholeName depth) (.name :: ks)
  | .part depth, ks => Derives (rule .namePart ++ behindPart depth) ks
  | .partName depth, ks => Derives (rule .namePart ++ behindPart depth) (.name :: ks)
  | .closedList depth, ks => Derives (behindPart depth) ks
  | .suffix 0, _ => False
  | .suffix (depth + 1), ks => Derives (behindArgument depth) ks
  | .rank 0, _ => False
  | .rank (depth + 1), ks =>
      Derives (many (mark .comma) ++ (mark .closeBracket ++ behindArgument depth)) ks
  | .aliasWord, ks => Derives (token .aliasWord ++ (token .name ++ mark .semicolon)) ks
  | .aliasTarget, ks => Derives (token .name ++ mark .semicolon) ks
  | .aliasName, ks => Derives (mark .semicolon) ks

theorem token_first {g : Form} {k : Terminal} {ks : List Terminal} (h : Derives (.token k ++ g) ks) :
    ∃ ks', ks = k :: ks' :=
  (derives_token_first.mp h).imp fun _ => And.left

theorem mark_cons {g : Form} {s s' : Symbol} {ks : List Terminal} :
    Derives (.mark s ++ g) (.symbol s' :: ks) ↔ s' = s ∧ Derives g ks := by
  rw [Form.mark, derives_token_cons, Terminal.symbol.injEq]

namespace Point

variable {depth : Nat} {s : Symbol} {ks : List Terminal}

/-! ### The ways in which a declaration may go on -/

theorem firstName_ways :
    Completes .firstName ks ↔
      Derives (.mark .equals ++ .wholeName 0) ks ∨ Completes (.headName 0) ks := by
  rw [Completes, Form.target, derives_optional, derives_rule, Rule.production, derives_assoc,
    derives_token_cons, and_iff_right rfl, Completes]

theorem headName_ways :
    Completes (.headName depth) ks ↔
      Derives (.mark .doubleColon ++ (.rule .namePart ++ .behindPart depth)) ks ∨
        Completes (.partName depth) ks := by
  rw [Completes, Form.wholeName, derives_rule, Rule.production, derives_assoc, derives_assoc,
    derives_optional, derives_rule, Rule.production, derives_assoc, derives_token_cons,
    and_iff_right rfl, Completes, Form.behindPart]

theorem derives_typeArg_iff :
    Derives (.rule .typeArg ++ (.many (.mark .comma ++ .rule .typeArg) ++
        (.mark .greater ++ .behindPart depth))) ks ↔ Derives (.wholeName (depth + 1)) ks := by
  rw [derives_rule, Rule.production, derives_assoc, derives_assoc]
  rfl

theorem partName_ways :
    Completes (.partName depth) ks ↔
      Derives (.mark .less ++ .wholeName (depth + 1)) ks ∨ Completes (.closedList depth) ks := by
  rw [Completes, derives_rule, Rule.production, derives_assoc, derives_token_cons,
    and_iff_right rfl, derives_optional, derives_rule, Rule.production, derives_assoc,
    derives_assoc, derives_assoc, derives_congr_right fun _ => derives_typeArg_iff, Completes]

theorem closedList_ways :
    Completes (.closedList depth) ks ↔
      Derives (.mark .dot ++ (.rule .namePart ++ .behindPart depth)) ks ∨
        Derives (.behindName depth) ks := by
  rw [Completes, Form.behindPart, derives_many, derives_assoc]

theorem suffix_ways :
    Completes (.suffix (depth + 1)) ks ↔
      Derives (.mark .openBracket ++ (.many (.mark .comma) ++
        (.mark .closeBracket ++ .behindArgument depth))) ks ∨
      Derives (.mark .comma ++ .wholeName (depth + 1)) ks ∨
      Derives (.mark .greater ++ .behindPart depth) ks := by
  rw [Completes, Form.behindArgument, derives_many, derives_rule, Rule.production, derives_assoc,
    derives_assoc, derives_many, derives_assoc, derives_congr_right fun _ => derives_typeArg_iff]

theorem behindName_ways :
    Derives (.behindName (depth + 1)) ks ↔
      Derives (.mark .question ++ .behindArgument depth) ks ∨ Completes (.suffix (depth + 1)) ks :=
  derives_optional

/-! ### The first terminal -/

def Awaits : Point → Terminal → Prop
  | .opening, k => k = .staticWord ∨ k = .name
  | .target, k | .name _, k | .part _, k | .aliasTarget, k => k = .name
  | .aliasWord, k => k = .aliasWord
  | _, k => ∃ s, k = .symbol s

def StartsSymbol (ks : List Terminal) : Prop := ∃ s ks', ks = .symbol s :: ks'

theorem mark_first {g : Form} (h : Derives (.mark s ++ g) ks) : StartsSymbol ks :=
  ⟨s, token_first h⟩

theorem suffix_first (h : Completes (.suffix depth) ks) : StartsSymbol ks := by
  cases depth with
  | zero => exact h.elim
  | succ depth => rcases suffix_ways.mp h with h | h | h <;> exact mark_first h

theorem behindName_first (h : Derives (.behindName depth) ks) : StartsSymbol ks := by
  cases depth with
  | zero => exact ⟨_, [], derives_token_iff.mp h⟩
  | succ depth =>
      rcases behindName_ways.mp h with h | h
      · exact mark_first h
      · exact suffix_first h

theorem closedList_first (h : Completes (.closedList depth) ks) : StartsSymbol ks := by
  rcases closedList_ways.mp h with h | h
  · exact mark_first h
  · exact behindName_first h

theorem partName_first (h : Completes (.partName depth) ks) : StartsSymbol ks := by
  rcases partName_ways.mp h with h | h
  · exact mark_first h
  · exact closedList_first h

theorem headName_first (h : Completes (.headName depth) ks) : StartsSymbol ks := by
  rcases headName_ways.mp h with h | h
  · exact mark_first h
  · exact partName_first h

theorem firstName_first (h : Completes .firstName ks) : StartsSymbol ks := by
  rcases firstName_ways.mp h with h | h
  · exact mark_first h
  · exact headName_first h

theorem rank_first (h : Completes (.rank depth) ks) : StartsSymbol ks := by
  cases depth with
  | zero => exact h.elim
  | succ depth => rcases derives_many.mp h with h | h <;> exact mark_first h

theorem namePart_first {g : Form} (h : Derives (.rule .namePart ++ g) ks) :
    ∃ ks', ks = .name :: ks' := by
  rw [derives_rule, Rule.production, derives_assoc] at h
  exact token_first h

theorem wholeName_first (h : Derives (.wholeName depth) ks) : ∃ ks', ks = .name :: ks' := by
  rw [Form.wholeName, derives_rule, Rule.production, derives_assoc, derives_assoc, derives_optional,
    derives_rule, Rule.production, derives_assoc] at h
  rcases h with h | h
  · exact token_first h
  · exact namePart_first h

theorem target_first (h : Derives .target ks) : ∃ ks', ks = .name :: ks' := by
  rw [Form.target, derives_optional, derives_rule, Rule.production, derives_assoc] at h
  rcases h with h | h
  · exact token_first h
  · exact wholeName_first h

theorem exists_awaited {p : Point} (h : Completes p ks) :
    ∃ k ks', ks = k :: ks' ∧ p.Awaits k := by
  have hname : (∃ ks', ks = .name :: ks') → ∃ k ks', ks = k :: ks' ∧ k = .name :=
    fun ⟨ks', hks⟩ => ⟨.name, ks', hks, rfl⟩
  have hsymbol : StartsSymbol ks → ∃ k ks', ks = k :: ks' ∧ ∃ s, k = .symbol s :=
    fun ⟨s, ks', hks⟩ => ⟨.symbol s, ks', hks, s, rfl⟩
  cases p with
  | opening =>
      rcases derives_optional.mp h with h | h
      · obtain ⟨ks', rfl⟩ := token_first h
        exact ⟨.staticWord, ks', rfl, Or.inl rfl⟩
      · obtain ⟨ks', rfl⟩ := target_first h
        exact ⟨.name, ks', rfl, Or.inr rfl⟩
  | target => exact hname (target_first h)
  | firstName => exact hsymbol (firstName_first h)
  | name depth => exact hname (wholeName_first h)
  | headName depth => exact hsymbol (headName_first h)
  | part depth => exact hname (namePart_first h)
  | partName depth => exact hsymbol (partName_first h)
  | closedList depth => exact hsymbol (closedList_first h)
  | suffix depth => exact hsymbol (suffix_first h)
  | rank depth => exact hsymbol (rank_first h)
  | aliasWord =>
      obtain ⟨ks', rfl⟩ := token_first h
      exact ⟨.aliasWord, ks', rfl, rfl⟩
  | aliasTarget => exact hname (token_first h)
  | aliasName => exact hsymbol ⟨_, [], derives_token_iff.mp h⟩

theorem awaits_of_completes {p : Point} {k : Terminal} (h : Completes p (k :: ks)) :
    p.Awaits k := by
  obtain ⟨k', ks', hks, hawaits⟩ := exists_awaited h
  obtain ⟨rfl, -⟩ := List.cons.inj hks
  exact hawaits

/-! ### Steps -/

theorem suffix_symbol_iff :
    Completes (.suffix depth) (.symbol s :: ks) ↔
      ∃ q, afterArgument depth s = some q ∧ Completes q ks := by
  cases depth with
  | zero => simp [Completes, afterArgument]
  | succ depth =>
      rw [suffix_ways, mark_cons, mark_cons, mark_cons]
      cases s <;> simp [afterArgument, Completes]

theorem behindName_symbol_iff :
    Derives (.behindName depth) (.symbol s :: ks) ↔
      (s = .semicolon ∧ depth = 0 ∧ ks = []) ∨
        (s = .question ∧ depth ≠ 0 ∧ Completes (.suffix depth) ks) ∨
        Completes (.suffix depth) (.symbol s :: ks) := by
  cases depth with
  | zero => simp [Form.behindName, Form.mark, derives_last_token, Completes]
  | succ depth =>
      rw [behindName_ways, mark_cons]
      simp [Completes]

theorem closedList_symbol_iff :
    Completes (.closedList depth) (.symbol s :: ks) ↔
      (s = .semicolon ∧ depth = 0 ∧ ks = []) ∨
        ∃ q, afterPart depth s = some q ∧ Completes q ks := by
  rw [closedList_ways, mark_cons, behindName_symbol_iff, suffix_symbol_iff]
  cases s <;> simp [afterPart, afterArgument, Completes]

theorem partName_symbol_iff :
    Completes (.partName depth) (.symbol s :: ks) ↔
      (s = .semicolon ∧ depth = 0 ∧ ks = []) ∨
        ∃ q, afterWord depth s = some q ∧ Completes q ks := by
  rw [partName_ways, mark_cons, closedList_symbol_iff]
  cases s <;> simp [afterWord, afterPart, afterArgument, Completes]

def kind : Point → Token → Terminal
  | .opening, .word w => if w = "static".toList then .staticWord else .name
  | .aliasWord, .word w => if w = "alias".toList then .aliasWord else .name
  | _, .word _ => .name
  | _, .symbol s => .symbol s

theorem completes_symbol_iff (p : Point) :
    Completes p (.symbol s :: ks) ↔
      (s = .semicolon ∧ p.mayEnd = true ∧ ks = []) ∨
        ∃ q, p.next (.symbol s) = some q ∧ Completes q ks := by
  cases p with
  | firstName =>
      rw [firstName_ways, headName_ways, mark_cons, mark_cons, partName_symbol_iff]
      cases s <;> simp [next, mayEnd, afterWord, afterPart, afterArgument, Completes]
  | headName depth =>
      rw [headName_ways, mark_cons, partName_symbol_iff]
      cases s <;> simp [next, mayEnd, afterWord, afterPart, afterArgument, Completes]
  | partName depth =>
      rw [partName_symbol_iff]
      simp [next, mayEnd]
  | closedList depth =>
      rw [closedList_symbol_iff]
      simp [next, mayEnd]
  | suffix depth =>
      rw [suffix_symbol_iff]
      simp [next, mayEnd]
  | rank depth =>
      cases depth with
      | zero => cases s <;> simp [next, mayEnd, Completes]
      | succ depth =>
          cases s <;> simp [next, mayEnd, Completes, Form.mark, derives_many, derives_token_cons]
  | aliasName => cases s <;> simp [next, mayEnd, Completes, Form.mark, derives_last_token]
  | opening | target | name depth | part depth | aliasWord | aliasTarget =>
      simp [next, mayEnd, Completes, Form.target, Form.wholeName, Form.mark, derives_rule,
        Rule.production, derives_assoc, derives_optional, derives_token_cons]

theorem completes_word_iff (p : Point) (w : Text) :
    Completes p (p.kind (.word w) :: ks) ↔
      ∃ q, p.next (.word w) = some q ∧ Completes q ks := by
  cases p with
  | opening =>
      by_cases hw : w = "static".toList
      · rw [kind, if_pos hw, next, if_pos hw]
        simp [Completes, derives_optional, derives_token_cons, Form.target, Form.wholeName,
          derives_rule, Rule.production, derives_assoc]
      · rw [kind, if_neg hw, next, if_neg hw]
        simp [Completes, derives_optional, derives_token_cons]
  | aliasWord =>
      by_cases hw : w = "alias".toList
      · simp [kind, next, hw, Completes, derives_token_cons]
      · rw [kind, if_neg hw, next, if_neg hw]
        simp [Completes, derives_token_cons]
  | target | name depth | part depth => simp [kind, next, Completes]
  | aliasTarget => simp [kind, next, Completes, derives_token_cons]
  | _ =>
      simp only [kind, next, reduceCtorEq, false_and, exists_false, iff_false]
      intro h
      obtain ⟨s, hs⟩ := awaits_of_completes h
      simp at hs

theorem kind_symbol (p : Point) (s : Symbol) : p.kind (.symbol s) = .symbol s := by
  cases p <;> rfl

theorem completes_kind_iff (p : Point) (token : Token) :
    Completes p (p.kind token :: ks) ↔
      (token = .symbol .semicolon ∧ p.mayEnd = true ∧ ks = []) ∨
        ∃ q, p.next token = some q ∧ Completes q ks := by
  cases token with
  | word w => simp [completes_word_iff]
  | symbol s => simp [kind_symbol, completes_symbol_iff]

theorem isA_kind (p : Point) (token : Token) : token.IsA (p.kind token) := by
  cases token with
  | symbol s =>
      rw [kind_symbol]
      exact .symbol s
  | word w =>
      cases p with
      | opening =>
          rw [kind]
          split
          · rename_i hw
            rw [hw]
            exact .staticWord
          · exact .name w
      | aliasWord =>
          rw [kind]
          split
          · rename_i hw
            rw [hw]
            exact .aliasWord
          · exact .name w
      | _ => exact .name w

theorem kind_eq {p : Point} {token : Token} {k : Terminal} (h : Completes p (k :: ks))
    (hk : token.IsA k) (hstatic : p = .opening → k = .name → token ≠ .word "static") :
    p.kind token = k := by
  have hawaits := awaits_of_completes h
  cases hk with
  | symbol s => cases p <;> rfl
  | staticWord =>
      cases p with
      | opening => rfl
      | _ => simp [Awaits] at hawaits
  | aliasWord =>
      cases p with
      | aliasWord => rfl
      | _ => simp [Awaits] at hawaits
  | name w =>
      cases p with
      | opening =>
          refine if_neg ?_
          rintro rfl
          exact hstatic rfl rfl rfl
      | aliasWord => simp [Awaits] at hawaits
      | _ => rfl

end Point

end ScriptWeave.Header
