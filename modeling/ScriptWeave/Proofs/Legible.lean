import ScriptWeave.Proofs.FilledLines
import ScriptWeave.Proofs.Workspace

namespace ScriptWeave

open FileTree

theorem Text.pieces_joinWith {isCut : Char → Bool} {c : Char} {parts : List Text}
    (hc : isCut c = true) (hparts : ∀ part ∈ parts, ∀ d ∈ part, isCut d = false)
    (hne : parts ≠ []) : pieces isCut (joinWith [c] parts) = parts := by
  induction parts with
  | nil => exact absurd rfl hne
  | cons part parts ih =>
      have hpart := pieces_of_none (hparts part List.mem_cons_self)
      cases parts with
      | nil => exact hpart
      | cons part' parts =>
          have hmore := ih (fun p hp => hparts p (List.mem_cons_of_mem _ hp)) (by simp)
          rw [joinWith_cons_of_ne_nil _ _ (by simp), List.append_assoc, List.singleton_append,
            pieces_append_cut hc, hpart, hmore]
          rfl

namespace Path

variable {p q : Path} {t : Text}

/-- No name holds a slash, and none says no more than that there is a directory. -/
def Legible (p : Path) : Prop := ∀ name ∈ p.names, isMark name = false ∧ '/' ∉ name

instance (p : Path) : Decidable p.Legible := inferInstanceAs (Decidable (∀ name ∈ p.names, _))

theorem legible_ofText (t : Text) : (ofText t).Legible := by
  intro name hname
  obtain ⟨hpiece, hplain⟩ := List.mem_filter.mp hname
  refine ⟨by simpa [isMark] using hplain, fun hslash => ?_⟩
  have hcut := Text.not_cut_of_mem_pieces hpiece '/' hslash
  simp at hcut

theorem Legible.join (hp : p.Legible) (hq : q.Legible) : (p.join q).Legible := by
  rw [Path.join]
  split
  · exact hq
  · intro name hname
    exact (List.mem_append.mp hname).elim (hp name) (hq name)

theorem Legible.parent (hp : p.Legible) : p.parent.Legible :=
  fun name hname => hp name (List.dropLast_subset _ hname)

/-- The pieces of the anchor's text, which stand for no names. -/
def lead : Anchor → List Text
  | .relative => []
  | .root => [[]]
  | .doubleRoot => [[], []]

theorem Legible.pieces_toText (h : p.Legible) (hne : p.names ≠ []) :
    Text.pieces (· = '/') p.toText = lead p.anchor ++ p.names := by
  have hnames : ∀ name ∈ p.names, ∀ c ∈ name, decide (c = '/') = false := by
    intro name hname c hc
    rw [decide_eq_false_iff_not]
    rintro rfl
    exact (h name hname).2 hc
  rw [toText_eq fun hdot => hne hdot.2]
  cases p.anchor <;> simp [lead, anchorText, Text.pieces, Text.pieces_joinWith _ hnames hne]

theorem Legible.anchorOf_toText (h : p.Legible) (hne : p.names ≠ []) :
    anchorOf p.toText = p.anchor := by
  obtain ⟨name, names, hnames⟩ := List.exists_cons_of_ne_nil hne
  obtain ⟨hmark, hslash⟩ := h name (hnames ▸ List.mem_cons_self)
  have hfilled : name ≠ [] := by
    rintro rfl
    simp [isMark] at hmark
  obtain ⟨c, rest, rfl⟩ := List.exists_cons_of_ne_nil hfilled
  have hc : c ≠ '/' := fun hc => hslash (hc ▸ List.mem_cons_self)
  obtain ⟨back, hback⟩ : ∃ back, Text.joinWith ['/'] p.names = c :: back := by
    rw [hnames]
    cases names with
    | nil => exact ⟨rest, rfl⟩
    | cons name names => exact ⟨_, rfl⟩
  rw [toText_eq fun hdot => hne hdot.2, hback]
  cases p.anchor <;> simp [anchorText, anchorOf, hc]

theorem Legible.ofText_toText (h : p.Legible) (hne : p.names ≠ []) : ofText p.toText = p := by
  have hnames : namesOf p.toText = p.names := by
    rw [namesOf, h.pieces_toText hne, List.filter_append]
    have hlead : (lead p.anchor).filter (fun name => name != [] && name != ['.']) = [] := by
      cases p.anchor <;> rfl
    rw [hlead, List.nil_append, List.filter_eq_self]
    intro name hname
    simpa [isMark] using (h name hname).1
  rw [ofText, hnames, h.anchorOf_toText hne]

theorem Legible.ofWritten_toText (h : p.Legible) (hne : p.names ≠ []) : ofWritten p.toText = p := by
  have hlast : (Text.pieces (· = '/') p.toText).getLast? = some (p.names.getLast hne) := by
    rw [h.pieces_toText hne, List.getLast?_append, List.getLast?_eq_getLast_of_ne_nil hne]
    rfl
  have hmark := (h _ (List.getLast_mem hne)).1
  rw [isMark, Bool.or_eq_false_iff, decide_eq_false_iff_not, decide_eq_false_iff_not] at hmark
  rw [ofWritten, hlast, h.ofText_toText hne]
  split
  · rename_i hnil
    exact absurd (Option.some.inj hnil) hmark.1
  · rename_i hdot
    exact absurd (Option.some.inj hdot) hmark.2
  · rfl

end Path

theorem FileTree.locate_toText {p : Path} (h : p.Legible) (t : FileTree) (follow : Bool)
    (directory : Place) :
    t.locate follow directory (.ofWritten p.toText) = t.locate follow directory p := by
  by_cases hne : p.names = []
  · obtain ⟨anchor, names⟩ := p
    obtain rfl : names = [] := hne
    cases anchor <;> rfl
  · rw [h.ofWritten_toText hne]

end ScriptWeave
