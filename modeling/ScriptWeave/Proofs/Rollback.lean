import ScriptWeave.Proofs.Readers

namespace ScriptWeave

open FileTree

namespace Publication

variable {h h' : Host} {names : CopyNames} {chunking : Chunking} {binary output : Path}
variable {symbols : Option Path} {parent q : Place} {t : FileTree} {e : FileError}

/-- One of the two halves of a publication fails. -/
inductive Fails (chunking : Chunking) (names : CopyNames) (binary output : Path)
    (symbols : Option Path) (h : Host) (e : FileError) : Prop
  | binary {after : Host}
      (hfails : (replace chunking names.binary binary output).on h = (.error e, after))
  | symbols {between after : Host}
      (hbinary : (replace chunking names.binary binary output).on h = (.ok (), between))
      (hfails : (publishSymbols chunking names.symbols (output.withExtension ".pdb") symbols).on
        between = (.error e, after))

theorem Fails.told (hfails : Fails chunking names binary output symbols h e)
    (hnamed : output.name ≠ []) :
    ((publish chunking names binary output symbols).on h).1 =
      .error (.artifact (.publication output e)) := by
  rw [publish, if_neg hnamed, Attempt.on_rephrase]
  cases hfails with
  | binary hfails =>
      rw [Attempt.on_bind, hfails]
      rfl
  | symbols hbinary hfails =>
      rw [Attempt.on_bind, hbinary]
      dsimp only
      rw [Attempt.on_bind, Attempt.on_outcome, hfails]
      dsimp only
      split
      · rw [Attempt.on_throw]
        rfl
      · rw [Attempt.on_bind, Attempt.on_lift]
        rfl

/-- What may be found at a place after a publication that failed. -/
inductive RolledBack (h : Host) (binary output : Path) (q : Place) (t : FileTree) : Prop
  | unchanged (hsame : t.get? q = h.tree.get? q)
  | withdrawn (hplace : Leads h output output q) (hnone : t.get? q = none)
  | made (hway : q ∈ h.tree.wayTo true h.directory output.parent) (hvacant : h.tree.get? q = none)
      (hmade : t.get? q = some .directory)
  /-- The output has taken the place of a link on the way to it, so that its path does not lead to it
  any more. -/
  | lost {content : Bytes} {target : Text} (hplace : Leads h output output q)
      (hlink : h.tree.get? q = some (.link target))
      (hway : q ∈ h.tree.wayTo true h.directory output.parent)
      (hlost : ∀ n, t.find false h.directory output ≠ .ok (q, n))
      (hread : (prepared h output).tree.readFile (prepared h output).directory binary = .ok content)
      (hnode : t.get? q = some (.file content false))

theorem rolledBack_of_prepared (hsame : t.get? q = (prepared h output).tree.get? q) :
    RolledBack h binary output q t := by
  rcases (Directories.on_ensure_growsIn h output.parent).tree q with hkept | ⟨hway, hvacant, hmade⟩
  · exact .unchanged (hsame.trans hkept)
  · exact .made hway hvacant (hsame.trans hmade)

theorem rolledBack_of_broken (hcause : e.cause ≠ .nullCharacter)
    (hbroken : Broken h names binary output e.cause t) (q : Place) :
    RolledBack h binary output q t := by
  have hgrows := Directories.on_ensure_growsIn h output.parent
  cases hbroken with
  | unpublished hsame => exact rolledBack_of_prepared (hsame q)
  | @remains parent hprepared hremains =>
      cases hremains with
      | withdrawn hlocated hupdates =>
          by_cases hq : q = parent ++ [output.name]
          · exact .withdrawn (hq ▸ hlocated) (hq ▸ hupdates.self)
          · exact rolledBack_of_prepared (hupdates.other hq)
      | stuck hway hlost hbinary =>
          by_cases hq : q = parent ++ [output.name]
          · subst hq
            have hsound := hprepared.sound
            obtain ⟨n, hn, hleads⟩ :=
              leadsOn_of_mem_wayTo hsound.rooted hsound.standing hprepared.found hway
            have hsame : (prepared h output).directory = h.directory := hgrows.directory
            rw [hsame] at hway hlost
            cases n with
            | link target =>
                refine .lost hbinary.located ((hgrows.tree.link_iff _ target).mp hn) ?_ hlost
                  hbinary.read hbinary.updates.self
                rwa [← hgrows.tree.wayTo]
            | directory => exact absurd hn hbinary.free
            | file content runnable => simp [Node.leadsOn] at hleads
            | sink => simp [Node.leadsOn] at hleads
          · exact rolledBack_of_prepared (hbinary.updates.other hq)
      | abandoned hnull _ => exact absurd hnull hcause

theorem Broken.unused (hbroken : Broken h names binary output e.cause t)
    (hunused : Unused h names output (prepared h output).tree) : Unused h names output t := by
  intro parent' hfound
  obtain ⟨hvacant, hsymbols⟩ := hunused parent' hfound
  cases hbroken with
  | unpublished hsame => exact ⟨(hsame _).trans hvacant, (hsame _).trans hsymbols⟩
  | @remains parent hprepared hremains =>
      obtain ⟨n, hupdates⟩ :
          ∃ n, (prepared h output).tree.Updates (parent ++ [output.name]) n t := by
        cases hremains with
        | withdrawn _ hupdates => exact ⟨_, hupdates⟩
        | stuck _ _ hbinary => exact ⟨_, hbinary.updates⟩
        | abandoned _ hbinary => exact ⟨_, hbinary.updates⟩
      obtain rfl : parent = parent' := by
        have hsame := hprepared.found.symm.trans hfound
        rw [Except.ok.injEq, Prod.mk.injEq] at hsame
        exact hsame.1
      constructor
      · rw [hupdates.other (by simpa using temporaryPath_ne output names.binary), hvacant]
      · rw [hupdates.other (by simpa using symbols_temporary_ne output names.symbols), hsymbols]

/-- Nothing of a publication that fails is left but the directories that it made. -/
theorem rolledBack_of_publish (hsound : h.Sound)
    (hunused : Unused h names output (prepared h output).tree) (hnamed : output.name ≠ [])
    (hfails : Fails chunking names binary output symbols h e) (hcause : e.cause ≠ .nullCharacter) :
    ∃ h', (publish chunking names binary output symbols).on h =
        (.error (.artifact (.publication output e)), h') ∧
      (∀ q, RolledBack h binary output q h'.tree) ∧ Unused h names output h'.tree := by
  have htold := hfails.told hnamed
  refine ⟨_, Attempt.on_eq htold, ?_⟩
  have hcourse : (publish chunking names binary output symbols).Course _ _ h :=
    course_publish hsound hunused hnamed
  obtain ⟨outcome, hresult, hends⟩ := hcourse.ends
  rw [htold] at hresult
  obtain ⟨published, rfl⟩ | ⟨e', rfl, hbroken⟩ := hends
  · cases hresult
  · cases hresult
    exact ⟨rolledBack_of_broken hcause hbroken, hbroken.unused hunused⟩

theorem rolledBack_without_symbols :
    ∃ h', (publish .whole ⟨"1a".toList, "2b".toList⟩ "/in/main.dll" "/out/app.dll"
        (some "/in/lost.pdb")).on staleHost =
          (.error (.artifact (.publication "/out/app.dll" ⟨.missing, "/in/lost.pdb"⟩)), h') ∧
      (∀ q, RolledBack staleHost "/in/main.dll" "/out/app.dll" q h'.tree) ∧
      Unused staleHost ⟨"1a".toList, "2b".toList⟩ "/out/app.dll" h'.tree :=
  rolledBack_of_publish sound_staleHost unused_staleHost (by decide)
    (.symbols (Attempt.on_eq (by decide +kernel)) (Attempt.on_eq (by decide +kernel))) (by decide)

/-- The output `/a/../a` is put into a directory that is there only when `/a` has been made. The binary
cannot take the place of `/a`, which stays. -/
theorem directory_stays_at_output :
    Fails .whole ⟨"1a".toList, "2b".toList⟩ "/in/main.dll" "/a/../a" none staleHost
        ⟨.isDirectory, "/a/../.a.1a.tmp"⟩ ∧
      Leads staleHost "/a/../a" "/a/../a" ["a".toList] ∧
      staleHost.tree.get? ["a".toList] = none ∧
      ((publish .whole ⟨"1a".toList, "2b".toList⟩ "/in/main.dll" "/a/../a" none).on
        staleHost).2.tree.get? ["a".toList] = some .directory :=
  ⟨.binary (Attempt.on_eq (by decide +kernel)), by decide +kernel, by decide +kernel,
    by decide +kernel⟩

end Publication

end ScriptWeave
