import ScriptWeave.Proofs.Course
import ScriptWeave.Proofs.Directories
import ScriptWeave.Proofs.FileTree.Barred

namespace ScriptWeave

open FileTree

namespace Directories

def Making (anchor : Anchor) (names : List Text) (action : Action) : Prop :=
  (∃ above, above <:+ names ∧ action = .makeDirectory ⟨anchor, above.reverse⟩) ∨
    ∃ p, action = .isDirectory p

theorem asks_accept {allowed : Action → Prop} (fine : Bool) (p : Path)
    {made : Attempt FileError Unit} (hmade : made.run.Asks allowed)
    (hquestion : allowed (.isDirectory p)) : (accept fine p made).run.Asks allowed := by
  apply Attempt.asks_bind (Attempt.asks_outcome hmade)
  rintro (e | u)
  · apply Attempt.asks_bind (Attempt.asks_lift (Procedure.asks_ask hquestion))
    intro isThere
    split <;> exact trivial
  · exact trivial

theorem asks_makeUp (anchor : Anchor) (fine : Bool) (names : List Text) :
    (makeUp anchor fine names).run.Asks (Making anchor names) := by
  suffices hall : ∀ above, above <:+ names → ∀ fine,
      (makeUp anchor fine above).run.Asks (Making anchor names) from
    hall names (List.suffix_refl _) fine
  intro above
  induction above with
  | nil =>
      intro habove fine
      exact asks_accept _ _ (Procedure.asks_ask (.inl ⟨[], habove, rfl⟩)) (.inr ⟨_, rfl⟩)
  | cons name above ih =>
      intro habove fine
      have hmake : Making anchor names (.makeDirectory ⟨anchor, (name :: above).reverse⟩) :=
        .inl ⟨_, habove, rfl⟩
      apply Attempt.asks_bind (Attempt.asks_outcome (Procedure.asks_ask hmake))
      intro result
      split
      · apply Attempt.asks_bind (ih ((List.suffix_cons _ _).trans habove) true)
        exact fun _ => asks_accept _ _ (Procedure.asks_ask hmake) (.inr ⟨_, rfl⟩)
      · exact asks_accept _ _ trivial (.inr ⟨_, rfl⟩)

theorem states_ensure {motive : Host → Prop} {h : Host} {p : Path} (hstart : motive h)
    (hstep : ∀ ns more, ns ++ more = p.names → ∀ h, motive h →
      motive ((Attempt.makeDirectory ⟨p.anchor, ns⟩).on h).2) :
    ∀ s ∈ (ensure p).run.states h, motive s := by
  apply (asks_makeUp p.anchor true p.names.reverse).states _ hstart
  rintro action between (⟨above, ⟨front, hfront⟩, rfl⟩ | ⟨q, rfl⟩) hbetween
  · apply hstep above.reverse front.reverse _ between hbetween
    rw [← List.reverse_append, hfront, List.reverse_reverse]
  · exact hbetween

theorem states_ensure_growsIn (h : Host) (p : Path) :
    ∀ s ∈ (ensure p).run.states h, h.GrowsIn (· ∈ h.tree.wayTo true h.directory p) s := by
  apply states_ensure (motive := h.GrowsIn (· ∈ h.tree.wayTo true h.directory p)) (.refl _ h)
  rintro ns more hnames between hbetween
  have hmade := on_makeDirectory_growsIn between ⟨p.anchor, ns⟩
  rw [hbetween.directory, hbetween.tree.wayTo] at hmade
  apply hbetween.trans
  refine ⟨hmade.tree.mono fun q hq => ?_, hmade.directory⟩
  rw [wayTo, ← hnames]
  exact way_subset (by simp) hq

theorem course_ensure (h : Host) (p : Path) :
    (ensure p).Course (h.tree.GrowsIn (· ∈ h.tree.wayTo true h.directory p) ·)
      (fun result h' => (ensure p).on h = (result, h')) h :=
  ⟨fun s hs => (states_ensure_growsIn h p s hs).tree, rfl⟩

theorem course_ensure_barred {h between : Host} {p : Path} {d : Place} (hsound : h.Sound)
    (hfound : h.tree.find true h.directory p = .ok (d, .directory))
    (hdirectory : between.directory = h.directory)
    (hbarred : BarredOn (· ∈ h.tree.wayTo true h.directory p) h.tree between.tree) :
    (ensure p).Course (· = between.tree)
      (fun result h' => h'.tree = between.tree ∧
        (result = .ok () → h'.tree.isDirectory h'.directory p = true)) between := by
  have halong : ∀ s ∈ (ensure p).run.states between,
      s.tree = between.tree ∧ s.directory = h.directory := by
    apply states_ensure (motive := fun s => s.tree = between.tree ∧ s.directory = h.directory)
      ⟨rfl, hdirectory⟩
    rintro ns more hnames s ⟨htree, hs⟩
    have hp : p = ⟨p.anchor, ns ++ more⟩ := by rw [hnames]
    obtain ⟨q, n, hfront⟩ : ∃ q n, h.tree.find false h.directory ⟨p.anchor, ns⟩ = .ok (q, n) := by
      rw [hp] at hfound
      exact find_of_front hsound.rooted (.inl hsound.standing) hfound
    have hway : ∀ r ∈ h.tree.wayTo false h.directory ⟨p.anchor, ns⟩,
        r ∈ h.tree.wayTo true h.directory p := by
      intro r hr
      rw [wayTo, ← hnames]
      exact way_subset (by simp) hr
    obtain ⟨hlocate, hnode⟩ := find_eq_ok_iff.mp hfront
    rcases on_makeDirectory_cases s ⟨p.anchor, ns⟩ with ⟨r, hmade, hvacant, -⟩ | ⟨_, -, hon⟩
    · exfalso
      rw [htree, hs] at hmade
      rw [htree] at hvacant
      rcases locate_of_barred hlocate fun r hr => hbarred r (hway r hr) with herror | ⟨r', hlocate', hend⟩
      · simp [herror] at hmade
      · rw [hmade, Except.ok.injEq] at hlocate'
        subst hlocate'
        rcases hend with rfl | ⟨_, hplain, -⟩
        · rcases hbarred r (hway r (locate_eq_ok_iff.mp hlocate).2.mem_way) with hsame | ⟨_, hplain, -⟩
          · simp [hvacant, hnode] at hsame
          · simp [hvacant] at hplain
        · simp [hvacant] at hplain
    · rw [hon]
      exact ⟨htree, hs⟩
  refine ⟨fun s hs => (halong s hs).1, (halong _ (Procedure.mem_states_run _ _)).1, fun hresult => ?_⟩
  exact isDirectory_of_on_ensure (Attempt.on_eq hresult)

end Directories

end ScriptWeave
