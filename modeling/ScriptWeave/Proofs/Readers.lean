import ScriptWeave.Proofs.Course.Publication

namespace ScriptWeave

open FileTree

namespace Publication

variable {h s : Host} {names : CopyNames} {chunking : Chunking} {binary output p : Path}
variable {symbols : Option Path} {parent q : Place} {t t' : FileTree}

/-- Where a path leads when the directory of the output has been made. -/
def Leads (h : Host) (output p : Path) (q : Place) : Prop :=
  (prepared h output).tree.locate false (prepared h output).directory p = .ok q

instance : Decidable (Leads h output p q) :=
  inferInstanceAs (Decidable ((prepared h output).tree.locate false _ p = .ok q))

/-- The binary has been put in its place, and nothing else has changed since the directory of the
output was made. -/
def HasBinary (h : Host) (binary output : Path) (t : FileTree) : Prop :=
  ∃ parent content, Replaced (prepared h output).directory binary output parent content
    (prepared h output).tree t

/-- What may be found at a place where the output or its symbols belong. -/
inductive Shown (h : Host) (binary output : Path) (symbols : Option Path) (q : Place)
    (t : FileTree) : Prop
  | unchanged (hsame : t.get? q = h.tree.get? q)
  | absent (hnone : t.get? q = none)
  | binary {content : Bytes} (hplace : Leads h output output q)
      (hread : (prepared h output).tree.readFile (prepared h output).directory binary = .ok content)
      (hnode : t.get? q = some (.file content false))
  | symbols {source : Path} {content : Bytes} {between : FileTree}
      (hplace : Leads h output (output.withExtension ".pdb") q) (hsource : symbols = some source)
      (hbinary : HasBinary h binary output between)
      (hread : between.readFile (prepared h output).directory source = .ok content)
      (hnode : t.get? q = some (.file content false))
  | made (hway : q ∈ h.tree.wayTo true h.directory output.parent) (hvacant : h.tree.get? q = none)
      (hmade : t.get? q = some .directory)

theorem Shown.congr (hshown : Shown h binary output symbols q t) (hsame : t'.get? q = t.get? q) :
    Shown h binary output symbols q t' := by
  cases hshown with
  | unchanged h => exact .unchanged (hsame.trans h)
  | absent h => exact .absent (hsame.trans h)
  | binary hplace hread h => exact .binary hplace hread (hsame.trans h)
  | symbols hplace hsource hbinary hread h =>
      exact .symbols hplace hsource hbinary hread (hsame.trans h)
  | made hway hvacant h => exact .made hway hvacant (hsame.trans h)

theorem shown_of_growsIn
    (hgrows : h.tree.GrowsIn (· ∈ h.tree.wayTo true h.directory output.parent) t) (q : Place) :
    Shown h binary output symbols q t := by
  rcases hgrows q with hsame | ⟨hway, hvacant, hmade⟩
  · exact .unchanged hsame
  · exact .made hway hvacant hmade

theorem shown_prepared : Shown h binary output symbols q (prepared h output).tree :=
  shown_of_growsIn (Directories.on_ensure_growsIn h output.parent).tree q

theorem place_of_leads (hprepared : Prepared (prepared h output) names output parent)
    (hp : p = output ∨ p = output.withExtension ".pdb") (hplace : Leads h output p q) :
    (NamesEntry p.name ∧ q = parent ++ [p.name]) ∨
      (prepared h output).tree.get? q = some .directory := by
  have hparent : p.parent = output.parent := by
    rcases hp with rfl | rfl
    · rfl
    · exact Path.withName_parent _ _
  have hnamed : p.name ≠ [] := by
    rcases hp with rfl | rfl
    · exact hprepared.named
    · exact name_ne_nil (namesEntry_symbols output)
  by_cases hentry : NamesEntry p.name
  · exact .inl ⟨hentry, eq_entry_of_locate (hparent ▸ hprepared.found) hentry hplace⟩
  · exact .inr (directory_of_not_entry hprepared.sound.rooted hprepared.sound.standing hnamed hentry
      hplace)

theorem symbols_ne_temporary (output : Path) (name : Text) :
    (output.withExtension ".pdb").name ≠ (temporaryPath output name).name := by
  intro hsame
  have hlast := congrArg List.getLast? hsame
  rw [temporaryPath_name, Path.withExtension, Path.withName_name] at hlast
  simp [List.getLast?_append, List.getLast?_cons] at hlast

theorem ne_temporary (hprepared : Prepared (prepared h output) names output parent)
    (hp : p = output ∨ p = output.withExtension ".pdb") (hplace : Leads h output p q) :
    q ≠ parent ++ [(temporaryPath output names.binary).name] ∧
      q ≠ parent ++ [(temporaryPath (output.withExtension ".pdb") names.symbols).name] := by
  rcases place_of_leads hprepared hp hplace with ⟨-, rfl⟩ | hdirectory
  · simp only [ne_eq, List.append_cancel_left_eq, List.cons.injEq, and_true]
    rcases hp with rfl | rfl
    · exact ⟨(temporaryPath_ne _ _).symm, (symbols_temporary_ne _ _).symm⟩
    · exact ⟨symbols_ne_temporary _ _, (temporaryPath_ne _ _).symm⟩
  · constructor <;> rintro rfl
    · exact absurd (hprepared.vacant.symm.trans hdirectory) nofun
    · exact absurd (hprepared.symbols_vacant.symm.trans hdirectory) nofun

theorem leads_symbols (hprepared : Prepared (prepared h output) names output parent)
    (hp : p = output ∨ p = output.withExtension ".pdb")
    (hplace : Leads h output p (parent ++ [(output.withExtension ".pdb").name]))
    (hentry : NamesEntry output.name) :
    Leads h output (output.withExtension ".pdb") (parent ++ [(output.withExtension ".pdb").name]) := by
  rcases hp with rfl | rfl
  · have hname : p.name = (p.withExtension ".pdb").name := by
      have hentry := eq_entry_of_locate hprepared.found hentry hplace
      simpa using hentry.symm
    have hsame : p.withExtension ".pdb" = p := by
      rw [Path.withExtension, Path.withName_name] at hname
      rw [Path.withExtension, ← hname, Path.withName_self hentry]
    rwa [hsame] at hplace ⊢
  · exact hplace

theorem shown_of_hasBinary (hbinary : HasBinary h binary output t) :
    Shown h binary output symbols q t := by
  obtain ⟨parent, content, hreplaced⟩ := hbinary
  by_cases hq : q = parent ++ [output.name]
  · subst hq
    exact .binary hreplaced.located hreplaced.read hreplaced.updates.self
  · exact shown_prepared.congr (hreplaced.updates.other hq)

theorem shown_of_stage (hprepared : Prepared (prepared h output) names output parent)
    (hp : p = output ∨ p = output.withExtension ".pdb") (hplace : Leads h output p q)
    (hstage : Stage (prepared h output) names binary output symbols parent t) :
    Shown h binary output symbols q t := by
  obtain ⟨hne, hne'⟩ := ne_temporary hprepared hp hplace
  cases hstage with
  | copying hupdates => exact shown_prepared.congr (hupdates.other hne)
  | published hbinary => exact shown_of_hasBinary ⟨_, _, hbinary⟩
  | copyingSymbols hbinary hupdates =>
      exact (shown_of_hasBinary ⟨_, _, hbinary⟩).congr (hupdates.other hne')
  | withSymbols hsource hbinary hsymbols =>
      by_cases hq : q = parent ++ [(output.withExtension ".pdb").name]
      · subst hq
        exact .symbols (leads_symbols hprepared hp hplace hbinary.entry) hsource ⟨_, _, hbinary⟩
          hsymbols.read hsymbols.updates.self
      · exact (shown_of_hasBinary ⟨_, _, hbinary⟩).congr (hsymbols.updates.other hq)
  | withoutSymbols hbinary hupdates =>
      by_cases hq : q = parent ++ [(output.withExtension ".pdb").name]
      · exact .absent (hq ▸ hupdates.self)
      · exact (shown_of_hasBinary ⟨_, _, hbinary⟩).congr (hupdates.other hq)
  | withdrawn hupdates =>
      by_cases hq : q = parent ++ [output.name]
      · exact .absent (hq ▸ hupdates.self)
      · exact shown_prepared.congr (hupdates.other hq)

/-- In every state that a publication goes through, nobody finds a part of a copy. -/
theorem shown_of_publish (hsound : h.Sound)
    (hunused : Unused h names output (prepared h output).tree)
    (hp : p = output ∨ p = output.withExtension ".pdb") (hplace : Leads h output p q)
    (hs : s ∈ (publish chunking names binary output symbols).run.states h) :
    Shown h binary output symbols q s.tree := by
  by_cases hnamed : output.name = []
  · rw [publish, if_pos hnamed] at hs
    exact .unchanged (List.mem_singleton.mp hs ▸ rfl)
  · rcases (course_publish hsound hunused hnamed).along s hs with hgrows | ⟨hprepared, hstage⟩
    · exact shown_of_growsIn hgrows q
    · exact shown_of_stage hprepared hp hplace hstage

theorem shown_over_stale_files :
    ∃ s ∈ (publish .whole ⟨"1a".toList, "2b".toList⟩ "/in/main.dll" "/out/app.dll"
        (some "/in/main.pdb")).run.states staleHost,
      s.tree.get? ["out".toList, "app.dll".toList] = some (.file [77, 90] false) ∧
      Shown staleHost "/in/main.dll" "/out/app.dll" (some "/in/main.pdb")
        ["out".toList, "app.dll".toList] s.tree := by
  refine ⟨_, Procedure.mem_states_run _ _, by decide +kernel, ?_⟩
  exact shown_of_publish sound_staleHost unused_staleHost (.inl rfl) (by decide +kernel)
    (Procedure.mem_states_run _ _)

/-- The output `/a/../a` is looked for in a directory that is there only when `/a` has been made, and
then `/a` is where it belongs. -/
theorem shown_directory_on_the_way :
    Leads staleHost "/a/../a" "/a/../a" ["a".toList] ∧
      staleHost.tree.get? ["a".toList] = none ∧
      ∃ s ∈ (publish .whole ⟨"1a".toList, "2b".toList⟩ "/in/main.dll" "/a/../a" none).run.states
          staleHost, s.tree.get? ["a".toList] = some .directory :=
  ⟨by decide +kernel, by decide +kernel, _, Procedure.mem_states_run _ _, by decide +kernel⟩

end Publication

end ScriptWeave
