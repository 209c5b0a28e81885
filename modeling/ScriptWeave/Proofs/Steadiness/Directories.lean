import ScriptWeave.Proofs.Steadiness.Actions

namespace ScriptWeave.Directories

open FileTree

variable {own kept foreign : Place → Prop} {h h' z : Host} {p : Path} {anchor : Anchor}
variable {names : List Text} {fine : Bool}

theorem wayTo_present (hsound : h.Sound) (hp : h.tree.isDirectory h.directory p = true) :
    ∀ q ∈ h.tree.wayTo true h.directory p, (h.tree.get? q).isSome := by
  obtain ⟨q, hfind⟩ := isDirectory_iff.mp hp
  exact present_of_find hsound.rooted hsound.standing hfind

/-- How the tree has grown while directories are made along a way, beside what others do. -/
abbrev Along (kept foreign : Place → Prop) (way : List Place) : FileTree → FileTree → Prop :=
  Drift (fun q => kept q ∧ q ∉ way) foreign

theorem along_of_drift {t t' : FileTree} (hdrift : Drift kept foreign t t') (way : List Place) :
    Along kept foreign way t t' :=
  hdrift.mono (fun _ => And.left) fun _ => id

/-- The last directory of the path can be made, or is there already and that is fine. -/
def Makes (t : FileTree) (directory : Place) (fine : Bool) (p : Path) : Prop :=
  (∃ t', t.makeDirectory directory p = .ok t') ∨ (fine = true ∧ t.isDirectory directory p = true)

/-! ### Alone -/

theorem Secures.makes (hsecures : Secures fine p h z) : Makes h.tree h.directory fine p := by
  rcases hsecures with hmade | ⟨-, hthere⟩
  · obtain ⟨t, hmake, -⟩ := Attempt.on_makeDirectory_eq_ok_iff.mp hmade
    exact .inl ⟨t, hmake⟩
  · exact .inr hthere

theorem makes_of_makeUp {name : Text} {above : List Text}
    (hon : (makeUp anchor fine (name :: above)).on h = (.ok (), z)) :
    Makes h.tree h.directory fine ⟨anchor, (name :: above).reverse⟩ ∨
      ∃ between, (makeUp anchor true above).on h = (.ok (), between) ∧
        Makes between.tree h.directory fine ⟨anchor, (name :: above).reverse⟩ := by
  rcases secures_of_on_makeUp hon with hsecures | ⟨-, between, hmade, hsecures⟩
  · exact .inl hsecures.makes
  · have hdirectory := Attempt.on_directory (makeUp anchor true above) h
    rw [hmade] at hdirectory
    exact .inr ⟨between, hmade, hdirectory ▸ hsecures.makes⟩

/-- Directories have been made on the way of a path, and nothing else, and it leads to one. -/
structure Completed (h : Host) (p : Path) (z : Host) : Prop where
  sound : z.Sound
  grows : h.GrowsIn (· ∈ h.tree.wayTo true h.directory p) z
  there : z.tree.isDirectory h.directory p = true

theorem completed_of_makeUp (hsound : h.Sound)
    (hon : (makeUp anchor fine names).on h = (.ok (), z)) :
    Completed h ⟨anchor, names.reverse⟩ z := by
  have hsound' := on_makeUp_sound anchor fine names hsound
  have hgrows := on_makeUp_growsIn anchor fine true names h
  have hthere := isDirectory_of_on_makeUp hon
  rw [hon] at hsound' hgrows
  exact ⟨hsound', hgrows, hgrows.directory ▸ hthere⟩

theorem completed_of_makeNew (hsound : h.Sound) (hon : (makeNew p).on h = (.ok (), z)) :
    Completed h p z := by
  have hcompleted := completed_of_makeUp hsound hon
  rwa [List.reverse_reverse] at hcompleted

theorem Completed.present (hcompleted : Completed h p z) :
    ∀ q ∈ h.tree.wayTo true h.directory p, (z.tree.get? q).isSome := by
  have hpresent := wayTo_present hcompleted.sound (hcompleted.grows.directory ▸ hcompleted.there)
  rwa [hcompleted.grows.directory, hcompleted.grows.tree.wayTo] at hpresent

/-! ### Beside others -/

theorem makes_of_alone {t : FileTree} (way : List Place) (hz : z.Sound)
    (hgrows : h.GrowsIn (· ∈ way) z) (hpresent : ∀ q ∈ way, (z.tree.get? q).isSome)
    (hfree : ∀ q ∈ h.tree.wayTo true h.directory p, ¬ foreign q)
    (halong : Along kept foreign way h.tree t) (hpresent' : ∀ q ∈ way, (t.get? q).isSome)
    (hend : fine = true ∨
      ∀ q, (h.tree.wayTo false h.directory p).getLast? = some q → kept q)
    (halone : Makes z.tree h.directory fine p) : Makes t h.directory fine p := by
  -- On the way others can only have put directories where alone nothing would be.
  have hways : ∀ q ∈ z.tree.wayTo true h.directory p, t.get? q = z.tree.get? q ∨
      (z.tree.get? q = none ∧ t.get? q = some .directory ∧ ¬ kept q) := by
    intro q hq
    rw [hgrows.tree.wayTo] at hq
    rcases halong q with hforeign | hsame | ⟨hmay, hnone, hmade⟩
    · exact absurd hforeign (hfree q hq)
    · rcases hgrows.tree q with hsame' | ⟨hmem, hnone, -⟩
      · exact .inl (hsame.trans hsame'.symm)
      · have hthere := hpresent' q hmem
        rw [hsame, hnone] at hthere
        simp at hthere
    · rcases hgrows.tree q with hsame' | ⟨-, -, hmade'⟩
      · refine .inr ⟨hsame'.trans hnone, hmade, fun hkept => hmay ⟨hkept, fun hmem => ?_⟩⟩
        have hthere := hpresent q hmem
        rw [hsame', hnone] at hthere
        simp at hthere
      · exact .inl (hmade.trans hmade'.symm)
  rcases halone with ⟨t', hmake⟩ | ⟨hfine, hthere⟩
  · obtain ⟨q, hlocate, hvacant, -⟩ := makeDirectory_eq_ok_iff.mp hmake
    have hlocate' : t.locate false h.directory p = .ok q := by
      refine locate_of_way hlocate fun r hr => ?_
      exact (hways r (wayTo_subset _ _ _ hr)).imp_right fun hmade => ⟨hmade.1, hmade.2.1⟩
    rcases hways q (wayTo_subset _ _ _ (mem_wayTo hlocate)) with hsame | ⟨-, hmade, hnot⟩
    · exact .inl ⟨_, makeDirectory_eq_ok_iff.mpr ⟨q, hlocate', hsame.trans hvacant, rfl⟩⟩
    · have hlast : (h.tree.wayTo false h.directory p).getLast? = some q := by
        rw [← hgrows.tree.wayTo]
        exact (locate_eq_ok_iff.mp hlocate).2.getLast?_way
      -- Somebody else has made the directory already, which is as good.
      have hfine : fine = true := hend.resolve_right fun hkept => hnot (hkept q hlast)
      have hfollowed := locate_followed hlocate' (by simp [hmade])
      exact .inr ⟨hfine, isDirectory_iff.mpr ⟨q, find_eq_ok_iff.mpr ⟨hfollowed, hmade⟩⟩⟩
  · refine .inr ⟨hfine, ?_⟩
    rw [isDirectory_agree fun q hq => ?_, hthere]
    rcases hways q hq with hsame | ⟨hnone, -⟩
    · exact hsame
    · rw [← hgrows.directory] at hq hthere
      have hsome := wayTo_present hz hthere q hq
      simp [hnone] at hsome

theorem Completed.less {t : FileTree} (hcompleted : Completed h p z)
    (hfree : ∀ q ∈ h.tree.wayTo true h.directory p, ¬ foreign q)
    (hdrift : Drift kept foreign h.tree t) :
    ∀ q ∈ z.tree.wayTo true h.directory p, t.get? q = z.tree.get? q ∨ t.get? q = none := by
  intro q hq
  rw [hcompleted.grows.tree.wayTo] at hq
  have hsome := hcompleted.present q hq
  rcases hcompleted.grows.tree q with hsame | ⟨-, hnone, hdir⟩
  · rw [hsame] at hsome
    rw [hsame]
    exact .inl (hdrift.firm ⟨hfree q hq, .inr hsome⟩)
  · rcases hdrift q with hforeign | hsame | ⟨-, -, hdir'⟩
    · exact absurd hforeign (hfree q hq)
    · exact .inr (hsame.trans hnone)
    · exact .inl (hdir'.trans hdir.symm)

theorem Completed.misses_or_leads {name : Text} {above : List Text}
    (hcompleted : Completed h ⟨anchor, (name :: above).reverse⟩ z)
    (hfree : ∀ q ∈ h.tree.wayTo true h.directory ⟨anchor, (name :: above).reverse⟩, ¬ foreign q)
    (hsound' : h'.Sound) (hdirectory : h'.directory = h.directory)
    (hdrift : Drift kept foreign h.tree h'.tree) :
    h'.tree.makeDirectory h.directory ⟨anchor, (name :: above).reverse⟩ = .error .missing ∨
      h'.tree.isDirectory h'.directory ⟨anchor, above.reverse⟩ = true := by
  obtain ⟨q, hfind⟩ := isDirectory_iff.mp hcompleted.there
  obtain ⟨q', node, hfound⟩ := find_unfollowed hfind
  rcases locate_of_less (find_eq_ok_iff.mp hfound).1 fun r hr =>
    hcompleted.less hfree hdrift r (wayTo_subset _ _ _ hr) with hmissing | ⟨r, hlocate, -⟩
  · exact .inl (by rw [makeDirectory, hmissing])
  · rw [List.reverse_cons, ← hdirectory] at hlocate
    exact .inr (isDirectory_iff.mpr
      (find_front hsound'.rooted (.inl hsound'.standing) hlocate (by simp)))

theorem wayTo_above_subset (t : FileTree) (directory : Place) {name : Text} {above : List Text} :
    t.wayTo true directory ⟨anchor, above.reverse⟩ ⊆
      t.wayTo true directory ⟨anchor, (name :: above).reverse⟩ := by
  rw [List.reverse_cons]
  exact way_subset (by simp)

/-- If directories can be made alone, the last of them can be made or found, or one above it is
missing, and those can be made alone. -/
theorem makes_or_misses {name : Text} {above : List Text} (hsound : h.Sound)
    (hfree : ∀ q ∈ h.tree.wayTo true h.directory ⟨anchor, (name :: above).reverse⟩, ¬ foreign q)
    (hend : fine = true ∨ ∀ q, (h.tree.wayTo false h.directory
      ⟨anchor, (name :: above).reverse⟩).getLast? = some q → kept q)
    (hon : (makeUp anchor fine (name :: above)).on h = (.ok (), z))
    (hsound' : h'.Sound) (hdirectory : h'.directory = h.directory)
    (hdrift : Drift kept foreign h.tree h'.tree) :
    Makes h'.tree h.directory fine ⟨anchor, (name :: above).reverse⟩ ∨
      h'.tree.makeDirectory h.directory ⟨anchor, (name :: above).reverse⟩ = .error .missing ∧
        ∃ between, (makeUp anchor true above).on h = (.ok (), between) ∧
          Makes between.tree h.directory fine ⟨anchor, (name :: above).reverse⟩ := by
  rcases makes_of_makeUp hon with hmakes | ⟨between, hmade, hmakes⟩
  · exact .inl (makes_of_alone [] hsound (.refl _ _) (by simp) hfree (along_of_drift hdrift _)
      (by simp) hend hmakes)
  · rcases (completed_of_makeUp hsound hon).misses_or_leads hfree hsound' hdirectory hdrift with
      hmissing | hleads
    · exact .inr ⟨hmissing, between, hmade, hmakes⟩
    · have habove := completed_of_makeUp hsound hmade
      have hway := hdrift.wayTo fun q hq => hfree q (wayTo_above_subset _ _ hq)
      have hpresent := wayTo_present hsound' hleads
      rw [hdirectory, hway] at hpresent
      exact .inl (makes_of_alone _ habove.sound habove.grows habove.present hfree
        (along_of_drift hdrift _) hpresent hend hmakes)

/-! ### Step by step -/

/-- The directory is there, and nothing but directories on the way to it has been made. -/
structure Made (kept foreign : Place → Prop) (h : Host) (p : Path) (t : FileTree) : Prop where
  along : Along kept foreign (h.tree.wayTo true h.directory p) h.tree t
  there : t.isDirectory h.directory p = true

section Made

variable (hfree : ∀ q ∈ h.tree.wayTo true h.directory p, ¬ foreign q)

include hfree

theorem Made.present (hmade : Made kept foreign h p h'.tree) (hsound : h'.Sound)
    (hdirectory : h'.directory = h.directory) :
    ∀ q ∈ h.tree.wayTo true h.directory p, (h'.tree.get? q).isSome := by
  have hthere := hmade.there
  rw [← hmade.along.wayTo hfree]
  rw [← hdirectory] at hthere ⊢
  exact wayTo_present hsound hthere

theorem Made.later (hmade : Made kept foreign h p h'.tree) (hsound : h'.Sound)
    (hdirectory : h'.directory = h.directory) {after : Host}
    (hlater : h'.Later (Drift kept foreign) after) : Made kept foreign h p after.tree := by
  have hpresent := hmade.present hfree hsound hdirectory
  refine ⟨hmade.along.trans (along_of_drift hlater.tree _), ?_⟩
  rw [isDirectory_agree (hlater.tree.agreeOn fun q hq => ?_), hmade.there]
  rw [hmade.along.wayTo hfree] at hq
  exact ⟨hfree q hq, .inr (hpresent q hq)⟩

theorem safe_accept {reply : Except FileError Unit} (hsound : h'.Sound)
    (hdirectory : h'.directory = h.directory)
    (hreply : reply = .ok () ∨ fine = true) (hmade : Made kept foreign h p h'.tree) :
    (accept fine p (.ofOutcome reply)).run.Safe (Drift kept foreign) (Drift foreign own)
      (fun result t => result = .ok () ∧ Made kept foreign h p t) h' := by
  cases reply with
  | ok u => exact fun after hlater => ⟨rfl, hmade.later hfree hsound hdirectory hlater⟩
  | error e =>
      obtain rfl : fine = true := hreply.resolve_left (by simp)
      intro between hlater
      have hstill := hmade.later hfree hsound hdirectory hlater
      refine ⟨.refl _ _ _, ?_⟩
      have hthere : between.tree.isDirectory between.directory p = true := by
        rw [hlater.directory, hdirectory, hstill.there]
      show Procedure.Safe _ _ _ (ExceptT.run (if between.tree.isDirectory between.directory p = true
        then pure () else throw e)) between
      rw [if_pos hthere]
      exact fun after hafter => ⟨rfl, hstill.later hfree hlater.sound
        (hlater.directory.trans hdirectory) hafter⟩

theorem step_of_makes (own : Place → Prop) (hsound : h'.Sound)
    (hdirectory : h'.directory = h.directory)
    (halong : Along kept foreign (h.tree.wayTo true h.directory p) h.tree h'.tree)
    (hmakes : Makes h'.tree h.directory fine p) :
    ∃ reply after, (Attempt.makeDirectory p).on h' = (reply, after) ∧
      Drift foreign own h'.tree after.tree ∧ after.Sound ∧ after.directory = h.directory ∧
      (reply = .ok () ∨ reply = .error ⟨.exists, p⟩ ∧ fine = true) ∧
      Made kept foreign h p after.tree := by
  rw [Attempt.on_makeDirectory, hdirectory]
  rcases hmakes with ⟨t, hmake⟩ | ⟨hfine, hthere⟩
  · have hsound' := on_makeDirectory_sound hsound p
    have hgrows := growsIn_makeDirectory hmake
    rw [Attempt.on_makeDirectory, hdirectory, hmake] at hsound'
    have hgrows' : h'.tree.GrowsIn (· ∈ h.tree.wayTo true h.directory p) t := by
      apply hgrows.mono
      intro q hq
      rw [← halong.wayTo hfree]
      exact wayTo_subset _ _ _ hq
    rw [hmake]
    refine ⟨_, _, rfl, hgrows'.drift hfree, hsound', hdirectory, .inl rfl, ?_, ?_⟩
    · exact halong.trans (hgrows'.drift fun q hq hkept => hkept.2 hq)
    · exact isDirectory_of_makeDirectory hmake
  · rw [makeDirectory_of_isDirectory hthere]
    exact ⟨_, _, rfl, .refl _ _ _, hsound, hdirectory, .inr ⟨rfl, hfine⟩, halong, hthere⟩

theorem safe_accept_makeDirectory (hdirectory : h'.directory = h.directory)
    (hmakes : ∀ between, h'.Later (Drift kept foreign) between →
      Along kept foreign (h.tree.wayTo true h.directory p) h.tree between.tree ∧
      Makes between.tree h.directory fine p) :
    (accept fine p (.makeDirectory p)).run.Safe (Drift kept foreign) (Drift foreign own)
      (fun result t => result = .ok () ∧ Made kept foreign h p t) h' := by
  intro between hlater
  obtain ⟨halong, hbetween⟩ := hmakes between hlater
  obtain ⟨reply, after, hon, hguarantee, hsound, hafter, hreply, hmade⟩ := step_of_makes hfree own
    hlater.sound (hlater.directory.trans hdirectory) halong hbetween
  have hperform : (Action.makeDirectory p).perform between = (reply, after) := hon
  rw [hperform]
  exact ⟨hguarantee, safe_accept hfree hsound hafter (hreply.imp_right And.right) hmade⟩

end Made

theorem safe_makeUp_cons {name : Text} {above : List Text}
    {rely guarantee : FileTree → FileTree → Prop} {post : Except FileError Unit → FileTree → Prop}
    (hstep : ∀ between, h'.Later rely between → ∃ reply after,
      (Attempt.makeDirectory ⟨anchor, (name :: above).reverse⟩).on between = (reply, after) ∧
      guarantee between.tree after.tree ∧
      (∀ q, reply = .error ⟨.missing, q⟩ →
        (makeUp anchor true above >>= fun _ => accept fine ⟨anchor, (name :: above).reverse⟩
            (.makeDirectory ⟨anchor, (name :: above).reverse⟩)).run.Safe rely guarantee post after) ∧
      ((∀ q, reply ≠ .error ⟨.missing, q⟩) →
        (accept fine ⟨anchor, (name :: above).reverse⟩ (.ofOutcome reply)).run.Safe
          rely guarantee post after)) :
    (makeUp anchor fine (name :: above)).run.Safe rely guarantee post h' := by
  intro between hlater
  obtain ⟨reply, after, hon, hguarantee, hmissing, hother⟩ := hstep between hlater
  have hperform : (Action.makeDirectory ⟨anchor, (name :: above).reverse⟩).perform between =
      (reply, after) := hon
  rw [hperform]
  refine ⟨hguarantee, ?_⟩
  cases reply with
  | ok u => exact hother (by simp)
  | error e =>
      obtain ⟨cause, q⟩ := e
      cases cause with
      | missing => exact hmissing q rfl
      | _ => exact hother (by simp)

theorem safe_makeUp (hsound : h.Sound)
    (hfree : ∀ q ∈ h.tree.wayTo true h.directory ⟨anchor, names.reverse⟩, ¬ foreign q)
    (hend : fine = true ∨
      ∀ q, (h.tree.wayTo false h.directory ⟨anchor, names.reverse⟩).getLast? = some q → kept q)
    (hon : (makeUp anchor fine names).on h = (.ok (), z))
    (hdirectory : h'.directory = h.directory) (hdrift : Drift kept foreign h.tree h'.tree) :
    (makeUp anchor fine names).run.Safe (Drift kept foreign) (Drift foreign own)
      (fun result t => result = .ok () ∧ Made kept foreign h ⟨anchor, names.reverse⟩ t) h' := by
  induction names generalizing fine z h' with
  | nil =>
      apply safe_accept_makeDirectory hfree hdirectory
      intro between hlater
      have halong := along_of_drift (hdrift.trans hlater.tree)
      exact ⟨halong _, makes_of_alone [] hsound (.refl _ _) (by simp) hfree (halong _) (by simp) hend
        (secures_of_on_accept hon).makes⟩
  | cons name above ih =>
      have hfree' : ∀ q ∈ h.tree.wayTo true h.directory ⟨anchor, above.reverse⟩, ¬ foreign q :=
        fun q hq => hfree q (wayTo_above_subset _ _ hq)
      apply safe_makeUp_cons
      intro between hlater
      have hbetween := hlater.directory.trans hdirectory
      have hdrift' := hdrift.trans hlater.tree
      rcases makes_or_misses hsound hfree hend hon hlater.sound hbetween hdrift' with
        hmakes | ⟨hmissing, made, hmade, hmakes⟩
      · obtain ⟨reply, after, hstep, hguarantee, hafter, hdirectory', hreply, hthere⟩ :=
          step_of_makes hfree own hlater.sound hbetween (along_of_drift hdrift' _) hmakes
        refine ⟨reply, after, hstep, hguarantee, fun q hq => ?_, fun _ => ?_⟩
        · rcases hreply with rfl | ⟨rfl, -⟩ <;> simp at hq
        · exact safe_accept hfree hafter hdirectory' (hreply.imp_right And.right) hthere
      · refine ⟨.error ⟨.missing, ⟨anchor, (name :: above).reverse⟩⟩, between, ?_, .refl _ _ _,
          fun q _ => ?_, fun hnot => absurd rfl (hnot _)⟩
        · rw [Attempt.on_makeDirectory, hbetween, hmissing]
          rfl
        · have hup := ih hfree' (.inl rfl) hmade hbetween hdrift'
          apply hup.bind (Drift.refl _ _)
          rintro _ after hafter hsound' ⟨rfl, hthere⟩
          have hafter' := hafter.trans hbetween
          have habove := completed_of_makeUp hsound hmade
          apply safe_accept_makeDirectory hfree hafter'
          intro last hlast
          have hstill := hthere.later hfree' hsound' hafter' hlast
          refine ⟨hstill.along.mono
            (fun q hq => ⟨hq.1, fun hmem => hq.2 (wayTo_above_subset _ _ hmem)⟩) fun _ => id, ?_⟩
          exact makes_of_alone _ habove.sound habove.grows habove.present hfree hstill.along
            (hstill.present hfree' hlast.sound (hlast.directory.trans hafter')) hend hmakes

/-! ### Steadiness -/

theorem Made.drift {t : FileTree} (hmade : Made kept foreign h p t) (hsound : (h.withTree t).Sound)
    (hfree : ∀ q ∈ h.tree.wayTo true h.directory p, ¬ foreign q) (hcompleted : Completed h p z) :
    Drift kept foreign z.tree t := by
  have hpresent : ∀ q ∈ h.tree.wayTo true h.directory p, ((h.withTree t).tree.get? q).isSome :=
    Made.present hfree hmade hsound rfl
  intro q
  rcases hmade.along q with hforeign | hsame | ⟨hmay, hnone, hdir⟩
  · exact .inl hforeign
  · rcases hcompleted.grows.tree q with hsame' | ⟨hq, hnone, -⟩
    · exact .inr (.inl (hsame.trans hsame'.symm))
    · have hsome := hpresent q hq
      simp [hsame, hnone] at hsome
  · rcases hcompleted.grows.tree q with hsame' | ⟨-, -, hdir'⟩
    · refine .inr (.inr ⟨fun hkept => hmay ⟨hkept, fun hq => ?_⟩, hsame'.trans hnone, hdir⟩)
      have hsome := hcompleted.present q hq
      simp [hsame', hnone] at hsome
    · exact .inr (.inl (hdir.trans hdir'.symm))

theorem steady_makeUp (hsound : h.Sound)
    (hfree : ∀ q ∈ h.tree.wayTo true h.directory ⟨anchor, names.reverse⟩, ¬ foreign q)
    (hend : fine = true ∨
      ∀ q, (h.tree.wayTo false h.directory ⟨anchor, names.reverse⟩).getLast? = some q → kept q)
    (hon : (makeUp anchor fine names).on h = (.ok (), z)) :
    (makeUp anchor fine names).Steady own kept foreign h := by
  intro h' hdirectory hdrift
  refine (safe_makeUp hsound hfree hend hon hdirectory hdrift).sound.mono (fun _ _ => id)
    (fun _ _ => id) ?_
  rintro result t ⟨⟨rfl, hmade⟩, hrooted, hstanding⟩
  rw [Host.withTree_directory, hdirectory] at hstanding
  have halone : (makeUp anchor fine names).run.run h = (.ok (), z) := hon
  rw [halone]
  exact ⟨rfl, hmade.drift ⟨hrooted, hstanding⟩ hfree (completed_of_makeUp hsound hon)⟩

theorem steady_ensure (hsound : h.Sound)
    (hfree : ∀ q ∈ h.tree.wayTo true h.directory p, ¬ foreign q)
    (hon : (ensure p).on h = (.ok (), z)) : (ensure p).Steady own kept foreign h := by
  refine steady_makeUp hsound ?_ (.inl rfl) hon
  rwa [List.reverse_reverse]

theorem steady_makeNew (hsound : h.Sound)
    (hfree : ∀ q ∈ h.tree.wayTo true h.directory p, ¬ foreign q)
    (hend : ∀ q, (h.tree.wayTo false h.directory p).getLast? = some q → kept q)
    (hon : (makeNew p).on h = (.ok (), z)) : (makeNew p).Steady own kept foreign h := by
  refine steady_makeUp hsound ?_ (.inr ?_) hon
  · rwa [List.reverse_reverse]
  · rwa [List.reverse_reverse]

theorem on_ensure_of_drift (hsound : h.Sound)
    (hfree : ∀ q ∈ h.tree.wayTo true h.directory p, ¬ foreign q)
    (hon : (ensure p).on h = (.ok (), z)) (hsound' : h'.Sound) (hdirectory : h'.directory = h.directory)
    (hdrift : Drift kept foreign h.tree h'.tree) :
    ∃ z', (ensure p).on h' = (.ok (), z') := by
  have hsafe : (ensure p).run.Safe (Drift kept foreign) (Drift foreign fun _ => False) _ h' :=
    safe_makeUp hsound (by rwa [List.reverse_reverse]) (.inl rfl) hon hdirectory hdrift
  obtain ⟨⟨hresult, -⟩, -⟩ := hsafe.run (Drift.refl _ _) hsound' fun _ _ hstep =>
    hstep.standing (by simp)
  exact ⟨_, Attempt.on_eq hresult⟩

end ScriptWeave.Directories
