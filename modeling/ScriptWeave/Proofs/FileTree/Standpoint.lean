import ScriptWeave.Proofs.Legible

namespace ScriptWeave.FileTree

variable {t : FileTree} {follow : Bool} {directory place here q : Place} {base p : Path}

theorem locate_of_isAbsolute (hp : p.isAbsolute = true) :
    t.locate follow place p = t.locate follow directory p := by
  rw [locate, locate, startOf, startOf, if_pos hp, if_pos hp]

theorem Walks.mono {budget more : Nat} {names : List Text} (h : Walks t follow budget here names q)
    (hle : budget ≤ more) : Walks t follow more here names q := by
  induction h generalizing more with
  | done _ here => exact .done more here
  | mark hname _ ih => exact .mark hname (ih hle)
  | up _ ih => exact .up (ih hle)
  | directory hname hnode _ ih => exact .directory hname hnode (ih hle)
  | link hname hnode hfollow _ ih =>
      obtain ⟨less, rfl⟩ := Nat.exists_eq_add_of_lt hle
      exact .link hname hnode hfollow (ih (Nat.le_add_right _ less))
  | last hname hdirectory hlink => exact .last hname hdirectory hlink

theorem joinWith_back (separator : Text) (ns more : List Text) :
    Text.joinWith separator more <:+ Text.joinWith separator (ns ++ more) := by
  induction ns with
  | nil => exact List.suffix_refl _
  | cons part ns ih =>
      by_cases hmore : more = []
      · rw [hmore]
        exact List.nil_suffix
      · rw [List.cons_append, Text.joinWith_cons_of_ne_nil _ _ (by simp [hmore])]
        exact ih.trans (List.suffix_append _ _)

theorem Askable.back {anchor : Anchor} {ns more : List Text} (h : Askable ⟨anchor, ns ++ more⟩) :
    Askable ⟨.relative, more⟩ := by
  obtain ⟨hnull, hlong⟩ := h
  rw [List.any_append, Bool.or_eq_false_iff] at hnull
  refine ⟨hnull.2, ?_⟩
  rw [isTooLong, decide_eq_false_iff_not, Nat.not_le] at hlong ⊢
  by_cases hmore : more = []
  · rw [hmore]
    decide
  · obtain ⟨front, hfront⟩ := joinWith_back ['/'] ns more
    rw [toText_eq (by simp [hmore]), ← hfront] at hlong
    rw [toText_eq (by simp [hmore])]
    simp only [Text.encode, List.flatMap_append, List.length_append, Path.anchorText,
      List.nil_append] at hlong ⊢
    omega

theorem locate_behind (hbase : t.find true directory base = .ok (place, .directory))
    (hp : p.isAbsolute = false) (h : t.locate true directory (base.join p) = .ok q) :
    t.locate true place p = .ok q := by
  obtain ⟨anchor, names⟩ := p
  obtain rfl : anchor = .relative := by simpa [Path.isAbsolute] using hp
  obtain ⟨hlocate, hplace⟩ := find_eq_ok_iff.mp hbase
  have hjoin : base.join ⟨.relative, names⟩ = ⟨base.anchor, base.names ++ names⟩ := rfl
  rw [hjoin] at h
  obtain ⟨haskable, hwalks⟩ := locate_eq_ok_iff.mp h
  refine locate_eq_ok_iff.mpr ⟨haskable.back, ?_⟩
  by_cases hmore : names = []
  · subst hmore
    rw [List.append_nil, hlocate, Except.ok.injEq] at h
    exact h ▸ .done linkLimit place
  · obtain ⟨less, hle, hless⟩ : ∃ less ≤ linkLimit,
        t.walk true linkLimit (startOf directory base) (base.names ++ names) =
          t.walk true less place names :=
      (locate_eq_ok_iff.mp hlocate).2.go_on_within hplace hmore
    exact (walks_of_walk (hless.symm.trans hwalks.walk)).mono hle

theorem find_of_vacant {name : Text} {names : List Text} (hp : p.isAbsolute = false)
    (hnames : p.names = name :: names) (hname : NamesEntry name)
    (hvacant : t.get? (place ++ [name]) = none) (found : Place × Node) :
    t.find follow place p ≠ .ok found := by
  intro hfind
  obtain ⟨q, node⟩ := found
  obtain ⟨hlocate, hnode⟩ := find_eq_ok_iff.mp hfind
  have hwalks := (locate_eq_ok_iff.mp hlocate).2
  rw [startOf, hp, if_neg Bool.false_ne_true, hnames] at hwalks
  cases hwalks with
  | mark hmark _ => simp [hname.not_mark] at hmark
  | up _ => exact hname.not_up rfl
  | directory _ hdirectory _ => simp [hvacant] at hdirectory
  | link _ hlink _ _ => simp [hvacant] at hlink
  | last _ _ _ => simp [hvacant] at hnode

end ScriptWeave.FileTree
