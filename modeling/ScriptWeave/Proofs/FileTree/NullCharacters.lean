import ScriptWeave.FileTree.Resolution
import ScriptWeave.Proofs.FileTree.Walk

namespace ScriptWeave

namespace Text

variable {t : Text} {c : Char}

theorem mem_of_mem_pieces {isCut : Char → Bool} {piece : Text}
    (hpiece : piece ∈ pieces isCut t) (hc : c ∈ piece) : c ∈ t := by
  induction t generalizing piece with
  | nil =>
      obtain rfl := List.mem_singleton.mp hpiece
      exact hc
  | cons d t ih =>
      rw [pieces] at hpiece
      split at hpiece
      · rcases List.mem_cons.mp hpiece with rfl | hmore
        · simp at hc
        · exact List.mem_cons_of_mem _ (ih hmore hc)
      · obtain ⟨first, more, hpieces⟩ := List.exists_cons_of_ne_nil (pieces_ne_nil isCut t)
        rw [hpieces] at hpiece ih
        rcases List.mem_cons.mp hpiece with rfl | hmore
        · rcases List.mem_cons.mp hc with rfl | hc
          · exact List.mem_cons_self
          · exact List.mem_cons_of_mem _ (ih List.mem_cons_self hc)
        · exact List.mem_cons_of_mem _ (ih (List.mem_cons_of_mem _ hmore) hc)

theorem mem_of_mem_joinWith {separator : Text} {parts : List Text}
    (hc : c ∈ joinWith separator parts) : c ∈ separator ∨ ∃ part ∈ parts, c ∈ part := by
  induction parts with
  | nil => simp [joinWith] at hc
  | cons part parts ih =>
      by_cases hlast : parts = []
      · subst hlast
        exact .inr ⟨part, List.mem_cons_self, hc⟩
      · rw [joinWith_cons_of_ne_nil _ _ hlast, List.mem_append, List.mem_append] at hc
        rcases hc with (hc | hc) | hc
        · exact .inr ⟨part, List.mem_cons_self, hc⟩
        · exact .inl hc
        · rcases ih hc with hc | ⟨other, hother, hc⟩
          · exact .inl hc
          · exact .inr ⟨other, List.mem_cons_of_mem _ hother, hc⟩

end Text

namespace Path

def NullFree (p : Path) : Prop := p.names.any (·.contains '\x00') = false

variable {p q : Path} {t : Text}

theorem nullFree_iff : p.NullFree ↔ ∀ name ∈ p.names, '\x00' ∉ name := by
  simp [NullFree, List.any_eq_false]

theorem NullFree.join (hp : p.NullFree) (hq : q.NullFree) : (p.join q).NullFree := by
  rw [nullFree_iff] at hp hq ⊢
  rw [Path.join]
  split
  · exact hq
  · intro name hname
    exact (List.mem_append.mp hname).elim (hp name) (hq name)

theorem NullFree.withName {name : Text} (hp : p.NullFree) (hname : '\x00' ∉ name) :
    (p.withName name).NullFree := by
  rw [nullFree_iff] at hp ⊢
  intro other hother
  rcases List.mem_append.mp hother with hother | hother
  · exact hp other (List.dropLast_subset _ hother)
  · exact List.mem_singleton.mp hother ▸ hname

theorem NullFree.parent (hp : p.NullFree) : p.parent.NullFree := by
  rw [nullFree_iff] at hp ⊢
  exact fun name hname => hp name (List.dropLast_subset _ hname)

theorem NullFree.name (hp : p.NullFree) : '\x00' ∉ p.name := by
  rw [nullFree_iff] at hp
  rw [Path.name]
  cases hlast : p.names.getLast? with
  | none => simp
  | some name => exact hp name (List.mem_of_getLast? hlast)

theorem nullFree_ofText (ht : '\x00' ∉ t) : (ofText t).NullFree := by
  rw [nullFree_iff]
  intro name hname hnull
  exact ht (Text.mem_of_mem_pieces (List.mem_of_mem_filter hname) hnull)

theorem NullFree.toText (hp : p.NullFree) : '\x00' ∉ p.toText := by
  rw [nullFree_iff] at hp
  have hnames : '\x00' ∉ Text.joinWith ['/'] p.names := by
    intro hnull
    rcases Text.mem_of_mem_joinWith hnull with hslash | ⟨name, hname, hnull⟩
    · simp at hslash
    · exact hp name hname hnull
  unfold Path.toText
  split
  · decide
  · rw [List.mem_append, not_or]
    refine ⟨?_, hnames⟩
    cases p.anchor <;> decide

end Path

namespace FileTree

variable {t : FileTree} {follow : Bool} {directory here : Place} {p q : Path} {cause : FileCause}
variable {names : List Text}

end FileTree

end ScriptWeave
