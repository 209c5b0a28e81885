import ScriptWeave.Directories
import ScriptWeave.Proofs.FileTree.Rooted
import ScriptWeave.Proofs.Runs

namespace ScriptWeave

/-- Everything that was on the first host is still on the second one. -/
structure Host.GrowsTo (h h' : Host) : Prop where
  tree : h.tree.Extends h'.tree
  directory : h'.directory = h.directory

theorem Host.GrowsTo.refl (h : Host) : h.GrowsTo h := ⟨.refl _, rfl⟩

theorem Host.GrowsTo.trans {h h' h'' : Host} (hab : h.GrowsTo h') (hbc : h'.GrowsTo h'') :
    h.GrowsTo h'' :=
  ⟨hab.tree.trans hbc.tree, hbc.directory.trans hab.directory⟩

/-- All that is new on the second host is a directory at one of these places. -/
structure Host.GrowsIn (places : Place → Prop) (h h' : Host) : Prop where
  tree : h.tree.GrowsIn places h'.tree
  directory : h'.directory = h.directory

theorem Host.GrowsIn.refl (places : Place → Prop) (h : Host) : h.GrowsIn places h :=
  ⟨.refl _ _, rfl⟩

theorem Host.GrowsIn.trans {places : Place → Prop} {h h' h'' : Host} (hab : h.GrowsIn places h')
    (hbc : h'.GrowsIn places h'') : h.GrowsIn places h'' :=
  ⟨hab.tree.trans hbc.tree, hbc.directory.trans hab.directory⟩

/-- Everything is in a directory, and relative paths start in one. -/
structure Host.Sound (h : Host) : Prop where
  rooted : h.tree.Rooted
  standing : h.tree.get? h.directory = some .directory

namespace Directories

open FileTree

variable {h h' : Host} {p : Path}

theorem on_makeDirectory_cases (h : Host) (p : Path) :
    (∃ q, h.tree.locate false h.directory p = .ok q ∧ h.tree.get? q = none ∧
      (Attempt.makeDirectory p).on h = (.ok (), h.withTree (h.tree.put q .directory))) ∨
    ∃ cause, h.tree.makeDirectory h.directory p = .error cause ∧
      (Attempt.makeDirectory p).on h = (.error ⟨cause, p⟩, h) := by
  rw [Attempt.on_makeDirectory]
  cases hmade : h.tree.makeDirectory h.directory p with
  | error cause => exact .inr ⟨cause, rfl, rfl⟩
  | ok tree =>
      obtain ⟨q, hlocate, hnone, rfl⟩ := makeDirectory_eq_ok_iff.mp hmade
      exact .inl ⟨q, hlocate, hnone, rfl⟩

theorem makeDirectory_of_on_missing {q : Path}
    (hon : (Attempt.makeDirectory p).on h = (.error ⟨.missing, q⟩, h')) :
    h.tree.makeDirectory h.directory p = .error .missing ∧ h' = h := by
  rcases on_makeDirectory_cases h p with ⟨_, -, -, hmade⟩ | ⟨cause, hmake, hmade⟩
  · simp [hmade] at hon
  · rw [hmade, Prod.mk.injEq, Except.error.injEq, FileError.mk.injEq] at hon
    obtain ⟨⟨rfl, -⟩, rfl⟩ := hon
    exact ⟨hmake, rfl⟩

theorem on_makeDirectory_sound (hsound : h.Sound) (p : Path) :
    ((Attempt.makeDirectory p).on h).2.Sound := by
  rcases on_makeDirectory_cases h p with ⟨q, hlocate, hnone, hon⟩ | ⟨cause, -, hon⟩
  · rw [hon]
    have habove : h.tree.get? q.dropLast = some .directory :=
      (hsound.rooted.above_of_locate hsound.standing hlocate).resolve_left (by simp [hnone])
    exact ⟨hsound.rooted.put (by simp [hnone]) habove, extends_put .directory hnone _ _ hsound.standing⟩
  · rwa [hon]

theorem on_makeDirectory_growsIn (h : Host) (p : Path) :
    h.GrowsIn (· ∈ h.tree.wayTo false h.directory p) ((Attempt.makeDirectory p).on h).2 := by
  rcases on_makeDirectory_cases h p with ⟨q, hlocate, hnone, hon⟩ | ⟨cause, -, hon⟩
  · rw [hon]
    exact ⟨growsIn_makeDirectory (makeDirectory_eq_ok_iff.mpr ⟨q, hlocate, hnone, rfl⟩), rfl⟩
  · rw [hon]
    exact .refl _ h

theorem on_makeDirectory_grows (h : Host) (p : Path) :
    h.GrowsTo ((Attempt.makeDirectory p).on h).2 := by
  rw [Attempt.on_makeDirectory]
  cases hmade : h.tree.makeDirectory h.directory p with
  | error cause => exact .refl h
  | ok tree =>
      obtain ⟨q, -, hnone, rfl⟩ := makeDirectory_eq_ok_iff.mp hmade
      exact ⟨extends_put .directory hnone, rfl⟩

theorem on_accept (fine : Bool) (p : Path) (made : Attempt FileError Unit) (h : Host) :
    (accept fine p made).on h =
      match made.on h with
      | (.ok (), after) => (.ok (), after)
      | (.error e, after) =>
          if fine && after.tree.isDirectory after.directory p then (.ok (), after)
          else (.error e, after) := by
  rw [accept, Attempt.on_bind, Attempt.on_outcome]
  obtain ⟨result, after⟩ := made.on h
  cases result with
  | ok u => rfl
  | error e =>
      cases fine with
      | false => rfl
      | true =>
          show Attempt.on (if after.tree.isDirectory after.directory p = true then pure ()
            else throw e) after = _
          split
          · rename_i hdirectory
            simp [hdirectory, Attempt.on_pure]
          · rename_i hdirectory
            simp [hdirectory, Attempt.on_throw]

theorem on_accept_false (p : Path) (made : Attempt FileError Unit) (h : Host) :
    (accept false p made).on h = made.on h := by
  rw [on_accept]
  split
  · rename_i after hmade
    exact hmade.symm
  · rename_i e after hmade
    exact hmade.symm

theorem on_accept_host (fine : Bool) (p : Path) (made : Attempt FileError Unit) (h : Host) :
    ((accept fine p made).on h).2 = (made.on h).2 := by
  rw [on_accept]
  split
  · rename_i after hmade
    rw [hmade]
  · rename_i e after hmade
    rw [hmade]
    split <;> rfl

theorem isDirectory_of_on_makeDirectory (hmade : (Attempt.makeDirectory p).on h = (.ok (), h')) :
    h'.tree.isDirectory h'.directory p = true := by
  obtain ⟨tree, hmake, rfl⟩ := Attempt.on_makeDirectory_eq_ok_iff.mp hmade
  exact isDirectory_of_makeDirectory hmake

def Secures (fine : Bool) (p : Path) (h h' : Host) : Prop :=
  (Attempt.makeDirectory p).on h = (.ok (), h') ∨
    (h' = h ∧ fine = true ∧ h.tree.isDirectory h.directory p = true)

theorem Secures.isDirectory {fine : Bool} (hsecures : Secures fine p h h') :
    h'.tree.isDirectory h'.directory p = true := by
  rcases hsecures with hmade | ⟨rfl, -, hthere⟩
  · exact isDirectory_of_on_makeDirectory hmade
  · exact hthere

theorem Secures.made (hsecures : Secures false p h h') :
    (Attempt.makeDirectory p).on h = (.ok (), h') :=
  hsecures.resolve_right fun hthere => absurd hthere.2.1 (by decide)

theorem secures_of_on_accept {fine : Bool}
    (hon : (accept fine p (.makeDirectory p)).on h = (.ok (), h')) : Secures fine p h h' := by
  rw [on_accept] at hon
  split at hon
  · rename_i after hmade
    exact .inl (hmade.trans hon)
  · rename_i e after hfailed
    rcases on_makeDirectory_cases h p with ⟨_, -, -, hmade⟩ | ⟨_, -, herror⟩
    · simp [hmade] at hfailed
    · obtain ⟨-, rfl⟩ := Prod.mk.inj (herror.symm.trans hfailed)
      split at hon
      · rename_i hthere
        exact .inr ⟨(Prod.mk.inj hon).2.symm, Bool.and_eq_true_iff.mp hthere⟩
      · simp at hon

theorem on_makeUp_cons (anchor : Anchor) (fine : Bool) (name : Text) (above : List Text)
    (h : Host) :
    (makeUp anchor fine (name :: above)).on h =
      match (Attempt.makeDirectory ⟨anchor, (name :: above).reverse⟩).on h with
      | (.error ⟨.missing, _⟩, after) =>
          (makeUp anchor true above >>= fun _ =>
            accept fine ⟨anchor, (name :: above).reverse⟩
              (.makeDirectory ⟨anchor, (name :: above).reverse⟩)).on after
      | (result, after) =>
          (accept fine ⟨anchor, (name :: above).reverse⟩ (.ofOutcome result)).on after := by
  rw [makeUp, Attempt.on_bind, Attempt.on_outcome]
  obtain ⟨result, after⟩ := (Attempt.makeDirectory ⟨anchor, (name :: above).reverse⟩).on h
  cases result with
  | ok u => rfl
  | error e =>
      obtain ⟨cause, q⟩ := e
      cases cause <;> rfl

theorem secures_of_on_makeUp {anchor : Anchor} {fine : Bool} {name : Text} {above : List Text}
    (hon : (makeUp anchor fine (name :: above)).on h = (.ok (), h')) :
    Secures fine ⟨anchor, (name :: above).reverse⟩ h h' ∨
      h.tree.makeDirectory h.directory ⟨anchor, (name :: above).reverse⟩ = .error .missing ∧
        ∃ between, (makeUp anchor true above).on h = (.ok (), between) ∧
          Secures fine ⟨anchor, (name :: above).reverse⟩ between h' := by
  rw [on_makeUp_cons] at hon
  split at hon
  · rename_i q after hmissing
    obtain ⟨hmake, rfl⟩ := makeDirectory_of_on_missing hmissing
    obtain ⟨_, between, habove, haccept⟩ := Attempt.on_bind_eq_ok_iff.mp hon
    exact .inr ⟨hmake, between, habove, secures_of_on_accept haccept⟩
  · rename_i result after _ hmade
    rw [on_accept, Attempt.on_ofOutcome, ← hmade, ← on_accept] at hon
    exact .inl (secures_of_on_accept hon)

theorem secures_of_on_makeUp_concat {anchor : Anchor} {fine : Bool} {name : Text}
    {front : List Text} (hon : (makeUp anchor fine (front ++ [name]).reverse).on h = (.ok (), h')) :
    Secures fine ⟨anchor, front ++ [name]⟩ h h' ∨
      h.tree.makeDirectory h.directory ⟨anchor, front ++ [name]⟩ = .error .missing ∧
        ∃ between, (makeUp anchor true front.reverse).on h = (.ok (), between) ∧
          Secures fine ⟨anchor, front ++ [name]⟩ between h' := by
  have hreverse : (front ++ [name]).reverse = name :: front.reverse := List.reverse_concat
  have hback : (name :: front.reverse).reverse = front ++ [name] := by
    rw [← hreverse, List.reverse_reverse]
  rw [hreverse] at hon
  have hways := secures_of_on_makeUp hon
  rwa [hback] at hways

/-- What no directory that is tried on the way up makes false stays true. Those above the last one
are tried only if something was missing below them. -/
theorem on_makeUp_invariant {motive : Host → Prop} {anchor : Anchor} {names : List Text}
    (hself : ∀ h, motive h → motive ((Attempt.makeDirectory ⟨anchor, names.reverse⟩).on h).2)
    (habove : ∀ name above, name :: above <:+ names → ∀ h, motive h →
      h.tree.makeDirectory h.directory ⟨anchor, (name :: above).reverse⟩ = .error .missing →
      ∀ h', motive h' → motive ((Attempt.makeDirectory ⟨anchor, above.reverse⟩).on h').2)
    (fine : Bool) (h : Host) (hstart : motive h) : motive ((makeUp anchor fine names).on h).2 := by
  induction names generalizing fine h with
  | nil =>
      rw [makeUp, on_accept_host]
      exact hself h hstart
  | cons name above ih =>
      rw [on_makeUp_cons]
      split
      · rename_i q after hmissing
        obtain ⟨hmake, rfl⟩ := makeDirectory_of_on_missing hmissing
        have hfirst := habove name above (List.suffix_refl _) after hstart hmake
        have hmotive := ih hfirst (fun name' above' hsuffix =>
          habove name' above' (hsuffix.trans (List.suffix_cons _ _))) true after hstart
        rw [Attempt.on_bind]
        split
        · rename_i u between hon
          rw [hon] at hmotive
          rw [on_accept_host]
          exact hself between hmotive
        · rename_i e between hon
          rwa [hon] at hmotive
      · rename_i result after _ hon
        have hmotive := hself h hstart
        rw [hon] at hmotive
        rwa [on_accept_host, Attempt.on_ofOutcome]

theorem on_makeUp_step {motive : Host → Prop} {anchor : Anchor} {names : List Text}
    (hstep : ∀ above, above <:+ names → ∀ h, motive h →
      motive ((Attempt.makeDirectory ⟨anchor, above.reverse⟩).on h).2)
    (fine : Bool) (h : Host) (hstart : motive h) : motive ((makeUp anchor fine names).on h).2 :=
  on_makeUp_invariant (hstep names (List.suffix_refl _))
    (fun _ above hsuffix _ _ _ => hstep above ((List.suffix_cons _ _).trans hsuffix)) fine h hstart

theorem on_makeUp_grows (anchor : Anchor) (fine : Bool) (names : List Text) (h : Host) :
    h.GrowsTo ((makeUp anchor fine names).on h).2 :=
  on_makeUp_step (fun _ _ between hbetween => hbetween.trans (on_makeDirectory_grows between _))
    fine h (.refl h)

theorem on_makeUp_sound (anchor : Anchor) (fine : Bool) (names : List Text) (hsound : h.Sound) :
    ((makeUp anchor fine names).on h).2.Sound :=
  on_makeUp_step (motive := Host.Sound)
    (fun _ _ _ hbetween => on_makeDirectory_sound hbetween _) fine h hsound

theorem on_makeUp_growsIn (anchor : Anchor) (fine follow : Bool) (names : List Text) (h : Host) :
    h.GrowsIn (· ∈ h.tree.wayTo follow h.directory ⟨anchor, names.reverse⟩)
      ((makeUp anchor fine names).on h).2 := by
  apply on_makeUp_step (motive := fun h' =>
    h.GrowsIn (· ∈ h.tree.wayTo follow h.directory ⟨anchor, names.reverse⟩) h')
  · intro above habove between hbetween
    obtain ⟨front, rfl⟩ := habove
    have hmade := on_makeDirectory_growsIn between ⟨anchor, above.reverse⟩
    rw [hbetween.directory, hbetween.tree.wayTo] at hmade
    apply hbetween.trans
    refine ⟨hmade.tree.mono fun q hq => ?_, hmade.directory⟩
    rw [List.reverse_append]
    exact way_subset (by simp) hq
  · exact .refl _ h

theorem makeDirectory_of_on_makeUp {motive : Host → Prop} {anchor : Anchor} {names : List Text}
    (habove : ∀ name above, name :: above <:+ names → ∀ h, motive h →
      h.tree.makeDirectory h.directory ⟨anchor, (name :: above).reverse⟩ = .error .missing →
      ∀ h', motive h' → motive ((Attempt.makeDirectory ⟨anchor, above.reverse⟩).on h').2)
    (hstart : motive h) (hon : (makeUp anchor false names).on h = (.ok (), h')) :
    ∃ between, motive between ∧
      (Attempt.makeDirectory ⟨anchor, names.reverse⟩).on between = (.ok (), h') := by
  cases names with
  | nil => exact ⟨h, hstart, (secures_of_on_accept hon).made⟩
  | cons name above =>
      rcases secures_of_on_makeUp hon with hsecures | ⟨hmake, between, hmade, hsecures⟩
      · exact ⟨h, hstart, hsecures.made⟩
      · have hbetween : motive ((makeUp anchor true above).on h).2 :=
          on_makeUp_invariant (habove name above (List.suffix_refl _) h hstart hmake)
            (fun name' above' hsuffix =>
              habove name' above' (hsuffix.trans (List.suffix_cons _ _))) true h hstart
        rw [hmade] at hbetween
        exact ⟨between, hbetween, hsecures.made⟩

theorem isDirectory_of_on_makeUp {anchor : Anchor} {fine : Bool} {names : List Text}
    (hon : (makeUp anchor fine names).on h = (.ok (), h')) :
    h'.tree.isDirectory h'.directory ⟨anchor, names.reverse⟩ = true := by
  cases names with
  | nil => exact (secures_of_on_accept hon).isDirectory
  | cons name above =>
      rcases secures_of_on_makeUp hon with hsecures | ⟨-, between, -, hsecures⟩
      · exact hsecures.isDirectory
      · exact hsecures.isDirectory

theorem find_of_on_makeNew (hon : (makeNew p).on h = (.ok (), h')) :
    ∃ q, h'.tree.find false h'.directory p = .ok (q, .directory) := by
  obtain ⟨between, -, hmade⟩ := makeDirectory_of_on_makeUp (motive := fun _ => True)
    (fun _ _ _ _ _ _ _ _ => trivial) trivial hon
  rw [List.reverse_reverse] at hmade
  obtain ⟨tree, hmake, rfl⟩ := Attempt.on_makeDirectory_eq_ok_iff.mp hmade
  obtain ⟨q, hlocate, hvacant, rfl⟩ := makeDirectory_eq_ok_iff.mp hmake
  exact ⟨q, find_put_directory hlocate hvacant⟩

theorem on_makeUp_of_null {anchor : Anchor} {names : List Text}
    (hnull : names.any (·.contains '\x00') = true) :
    (makeUp anchor false names).on h = (.error ⟨.nullCharacter, ⟨anchor, names.reverse⟩⟩, h) := by
  have hmade : (Attempt.makeDirectory ⟨anchor, names.reverse⟩).on h =
      (.error ⟨.nullCharacter, ⟨anchor, names.reverse⟩⟩, h) := by
    rw [Attempt.on_makeDirectory, makeDirectory, locate, if_pos (by rwa [List.any_reverse])]
    rfl
  cases names with
  | nil => simp at hnull
  | cons name above =>
      rw [on_makeUp_cons, hmade]
      exact on_accept _ _ _ _

theorem on_ensure_grows (h : Host) (p : Path) : h.GrowsTo ((ensure p).on h).2 :=
  on_makeUp_grows _ _ _ h

theorem on_ensure_sound (hsound : h.Sound) (p : Path) : ((ensure p).on h).2.Sound :=
  on_makeUp_sound _ _ _ hsound

theorem on_ensure_growsIn (h : Host) (p : Path) :
    h.GrowsIn (· ∈ h.tree.wayTo true h.directory p) ((ensure p).on h).2 := by
  have hgrows := on_makeUp_growsIn p.anchor true true p.names.reverse h
  rwa [List.reverse_reverse] at hgrows

theorem isDirectory_of_on_ensure (hon : (ensure p).on h = (.ok (), h')) :
    h'.tree.isDirectory h'.directory p = true := by
  have hdirectory := isDirectory_of_on_makeUp hon
  rwa [List.reverse_reverse] at hdirectory

theorem on_ensure_of_isDirectory (hp : h.tree.isDirectory h.directory p = true) :
    (ensure p).on h = (.ok (), h) := by
  have hmake : (Attempt.makeDirectory p).on h = (.error ⟨.exists, p⟩, h) := by
    rw [Attempt.on_makeDirectory, makeDirectory_of_isDirectory hp]
    rfl
  have haccept : ∀ made : Attempt FileError Unit, made.on h = (.error ⟨.exists, p⟩, h) →
      (accept true p made).on h = (.ok (), h) := by
    intro made hmade
    rw [on_accept, hmade]
    simp [hp]
  obtain ⟨anchor, names⟩ := p
  rw [ensure]
  cases hnames : names.reverse with
  | nil =>
      obtain rfl := List.reverse_eq_nil_iff.mp hnames
      exact haccept _ hmake
  | cons name above =>
      have hback : (name :: above).reverse = names := by rw [← hnames, List.reverse_reverse]
      rw [on_makeUp_cons, hback, hmake]
      exact haccept _ (Attempt.on_ofOutcome _)

theorem on_ensure_of_vacant {q : Place} (hlocate : h.tree.locate false h.directory p = .ok q)
    (hvacant : h.tree.get? q = none) :
    (ensure p).on h = (.ok (), h.withTree (h.tree.put q .directory)) := by
  have hmake : (Attempt.makeDirectory p).on h =
      (.ok (), h.withTree (h.tree.put q .directory)) :=
    Attempt.on_makeDirectory_eq_ok_iff.mpr
      ⟨_, makeDirectory_eq_ok_iff.mpr ⟨q, hlocate, hvacant, rfl⟩, rfl⟩
  have haccept : ∀ {made : Attempt FileError Unit} {between after : Host},
      made.on between = (.ok (), after) → (accept true p made).on between = (.ok (), after) := by
    intro made between after hmade
    rw [on_accept, hmade]
  obtain ⟨anchor, names⟩ := p
  rw [ensure]
  cases hnames : names.reverse with
  | nil =>
      obtain rfl := List.reverse_eq_nil_iff.mp hnames
      exact haccept hmake
  | cons name above =>
      have hback : (name :: above).reverse = names := by rw [← hnames, List.reverse_reverse]
      rw [on_makeUp_cons, hback, hmake]
      exact haccept (Attempt.on_ofOutcome _)

end Directories

end ScriptWeave
