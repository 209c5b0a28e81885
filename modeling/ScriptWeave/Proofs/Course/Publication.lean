import ScriptWeave.Proofs.Course.Copying
import ScriptWeave.Proofs.Course.Directories

namespace ScriptWeave

open FileTree

namespace Publication

variable {h h' : Host} {source temporary target p : Path} {parent : Place} {chunking : Chunking}
variable {content : Bytes}

theorem course_removeFile {always : FileTree → Prop} (halways : always h.tree)
    (hafter : ∀ q n, h.tree.find false h.directory p = .ok (q, n) → always (h.tree.erase q)) :
    (Attempt.removeFile p).Course always
      (fun result h' => ((∃ e, result = .error e) ∧ h'.tree = h.tree ∧
          ∀ tree, h.tree.removeFile h.directory p ≠ .ok tree) ∨
        (result = .ok () ∧ ∃ q n, h.tree.find false h.directory p = .ok (q, n) ∧
          h'.tree = h.tree.erase q)) h := by
  cases hremoved : h.tree.removeFile h.directory p with
  | error cause =>
      have hon : (Attempt.removeFile p).on h = (.error ⟨cause, p⟩, h) := by
        rw [Attempt.on_removeFile, hremoved]
        rfl
      refine Attempt.course_action rfl halways ?_ ?_ <;> rw [hon]
      · exact halways
      · exact .inl ⟨⟨_, rfl⟩, rfl, by simp⟩
  | ok tree =>
      obtain ⟨q, n, hfound, rfl⟩ := find_of_removeFile hremoved
      have hon : (Attempt.removeFile p).on h = (.ok (), h.withTree (h.tree.erase q)) := by
        rw [Attempt.on_removeFile, hremoved]
        rfl
      refine Attempt.course_action rfl halways ?_ ?_ <;> rw [hon]
      · exact hafter q n hfound
      · exact .inr ⟨rfl, q, n, hfound, rfl⟩

/-- The stages of a publication once the directory of the output has been made. -/
inductive Stage (base : Host) (names : CopyNames) (binary output : Path) (symbols : Option Path)
    (parent : Place) (t : FileTree) : Prop
  | copying {n : Option Node}
      (hupdates : base.tree.Updates (parent ++ [(temporaryPath output names.binary).name]) n t)
  | published {content : Bytes}
      (hbinary : Replaced base.directory binary output parent content base.tree t)
  | copyingSymbols {content : Bytes} {between : FileTree} {n : Option Node}
      (hbinary : Replaced base.directory binary output parent content base.tree between)
      (hupdates : between.Updates
        (parent ++ [(temporaryPath (output.withExtension ".pdb") names.symbols).name]) n t)
  | withSymbols {source : Path} {content content' : Bytes} {between : FileTree}
      (hsource : symbols = some source)
      (hbinary : Replaced base.directory binary output parent content base.tree between)
      (hsymbols : Replaced base.directory source (output.withExtension ".pdb") parent content'
        between t)
  | withoutSymbols {content : Bytes} {between : FileTree}
      (hbinary : Replaced base.directory binary output parent content base.tree between)
      (hupdates : between.Updates (parent ++ [(output.withExtension ".pdb").name]) none t)
  | withdrawn (hupdates : base.tree.Updates (parent ++ [output.name]) none t)

/-- Nothing keeps a publication from its copies: the directory of the output is there, and the names
drawn at random are not taken. -/
structure Prepared (base : Host) (names : CopyNames) (output : Path) (parent : Place) : Prop where
  sound : base.Sound
  found : base.tree.find true base.directory output.parent = .ok (parent, .directory)
  vacant : base.tree.get? (parent ++ [(temporaryPath output names.binary).name]) = none
  symbols_vacant : base.tree.get?
    (parent ++ [(temporaryPath (output.withExtension ".pdb") names.symbols).name]) = none
  named : output.name ≠ []

section Second

variable {base between : Host} {names : CopyNames} {binary output : Path} {symbols : Option Path}

theorem Prepared.beside_binary (hprepared : Prepared base names output parent) :
    Beside base (temporaryPath output names.binary) output parent where
  sound := hprepared.sound
  found := hprepared.found
  sibling := temporaryPath_parent _ _
  entry := namesEntry_temporaryPath _ _
  vacant := hprepared.vacant
  named := hprepared.named

theorem Prepared.sound_between (hprepared : Prepared base names output parent)
    (hdirectory : between.directory = base.directory)
    (hbinary : Replaced base.directory binary output parent content base.tree between.tree) :
    between.Sound :=
  hbinary.sound hprepared.sound (find_eq_ok_iff.mp hprepared.found).2 hdirectory

theorem Replaced.of_same {directory : Place} {t t' t'' : FileTree}
    (hreplaced : Replaced directory source target parent content t t')
    (hsame : ∀ p, t''.get? p = t'.get? p) : Replaced directory source target parent content t t'' :=
  ⟨hreplaced.read, hreplaced.entry, hreplaced.located, hreplaced.free,
    fun p => (hsame p).trans (hreplaced.updates p)⟩

theorem name_ne_nil (hp : NamesEntry p.name) : p.name ≠ [] := by
  intro hnil
  have hmark := hp.not_mark
  rw [hnil] at hmark
  exact absurd hmark (by decide)

theorem Prepared.beside_symbols (hprepared : Prepared base names output parent)
    (hdirectory : between.directory = base.directory)
    (hbinary : Replaced base.directory binary output parent content base.tree between.tree)
    (hthere : between.tree.isDirectory between.directory output.parent = true) :
    Beside between (temporaryPath (output.withExtension ".pdb") names.symbols)
      (output.withExtension ".pdb") parent where
  sound := hprepared.sound_between hdirectory hbinary
  found := by
    obtain ⟨q, hfound⟩ := isDirectory_iff.mp hthere
    have hsame := (hbinary.barred _).find_directory hprepared.found (hdirectory ▸ hfound)
    rw [Path.withExtension, Path.withName_parent, hfound, hsame]
  sibling := temporaryPath_parent _ _
  entry := namesEntry_temporaryPath _ _
  vacant := by
    rw [hbinary.updates.other, hprepared.symbols_vacant]
    simpa using symbols_temporary_ne output names.symbols
  named := name_ne_nil (namesEntry_symbols output)

theorem Prepared.course_removeFile (hprepared : Prepared base names output parent)
    {always : FileTree → Prop} (hdirectory : between.directory = base.directory)
    (hbinary : Replaced base.directory binary output parent content base.tree between.tree)
    (hp : NamesEntry p.name) (hsibling : p.parent = output.parent) (halways : always between.tree)
    (hafter : ∀ t, between.tree.Updates (parent ++ [p.name]) none t → always t) :
    (Attempt.removeFile p).Course always
      (fun result h' => ((∃ e, result = .error e) ∧ h'.tree = between.tree ∧
          ∀ tree, between.tree.removeFile between.directory p ≠ .ok tree) ∨
        (result = .ok () ∧ between.tree.Updates (parent ++ [p.name]) none h'.tree)) between := by
  have hsound := hprepared.sound_between hdirectory hbinary
  have hremoved : ∀ q n, between.tree.find false between.directory p = .ok (q, n) →
      between.tree.Updates (parent ++ [p.name]) none (between.tree.erase q) := by
    intro q n hfound
    rw [hdirectory] at hfound
    have hlocate := (find_eq_ok_iff.mp hfound).1
    obtain ⟨-, hentry⟩ := (hbinary.barred _).locate_entry hsound.rooted
      (hdirectory ▸ hsound.standing) (hsibling ▸ hprepared.found) hp hlocate
    rw [hlocate, Except.ok.injEq] at hentry
    rw [hentry]
    exact updates_erase between.tree (by simp)
  refine (Publication.course_removeFile halways fun q n hfound => hafter _ (hremoved q n hfound)).mono
    (fun _ => id) ?_
  rintro result after (hfailed | ⟨rfl, q, n, hfound, htree⟩)
  · exact .inl hfailed
  · exact .inr ⟨rfl, htree ▸ hremoved q n hfound⟩

theorem course_removeIfPresent (hprepared : Prepared base names output parent)
    (hdirectory : between.directory = base.directory)
    (hbinary : Replaced base.directory binary output parent content base.tree between.tree) :
    (removeIfPresent (output.withExtension ".pdb")).Course
      (Stage base names binary output symbols parent)
      (fun result h' => result = .ok () ∨ ∃ e, result = .error e ∧ h'.tree = between.tree)
      between := by
  have hstart : Stage base names binary output symbols parent between.tree := .published hbinary
  refine (hprepared.course_removeFile hdirectory hbinary (namesEntry_symbols output)
    (Path.withName_parent _ _) hstart fun t => .withoutSymbols hbinary).outcome.bind ?_
    (by rintro e _ - ⟨_, ⟨⟩, -⟩)
  rintro result after - hafter ⟨_, ⟨⟩, (⟨⟨e, rfl⟩, hsame, -⟩ | ⟨rfl, -⟩)⟩
  · split
    · exact Attempt.course_pure hafter (.inl rfl)
    · exact Attempt.course_ofOutcome hafter (.inr ⟨_, rfl, hsame⟩)
  · exact Attempt.course_ofOutcome hafter (.inl rfl)

theorem course_publishSymbols (hprepared : Prepared base names output parent)
    (hdirectory : between.directory = base.directory)
    (hbinary : Replaced base.directory binary output parent content base.tree between.tree) :
    (publishSymbols chunking names.symbols (output.withExtension ".pdb") symbols).Course
      (Stage base names binary output symbols parent)
      (fun result h' => (∃ published, result = .ok published) ∨ ∃ e, result = .error e ∧
        Replaced base.directory binary output parent content base.tree h'.tree) between := by
  have hstart : Stage base names binary output symbols parent between.tree := .published hbinary
  cases symbols with
  | none =>
      refine (course_removeIfPresent hprepared hdirectory hbinary).bind ?_ ?_
      · rintro _ after - hafter -
        exact Attempt.course_pure hafter (.inl ⟨none, rfl⟩)
      · rintro e after - (⟨⟨⟩⟩ | ⟨_, -, hsame⟩)
        exact .inr ⟨e, rfl, hsame ▸ hbinary⟩
  | some source =>
      have hparent : (output.withExtension ".pdb").parent = output.parent := Path.withName_parent _ _
      have hensure := Directories.course_ensure_barred hprepared.sound hprepared.found hdirectory
        (hbinary.barred _)
      have hends : (replace chunking names.symbols source (output.withExtension ".pdb")).Course
          (Stage base names binary output (some source) parent)
          (fun result h' => result = .ok () ∨ ∃ e, result = .error e ∧
            Replaced base.directory binary output parent content base.tree h'.tree) between := by
        rw [replace_eq, hparent]
        refine (hensure.mono (fun t hsame => hsame ▸ hstart) fun _ _ => id).bind ?_ ?_
        · rintro _ ensured hsame - ⟨htree, hthere⟩
          have hbeside := hprepared.beside_symbols (hsame.trans hdirectory) (htree ▸ hbinary)
            (hthere rfl)
          refine (course_swap hbeside).mono ?_ ?_
          · rintro t (hupdates | hreplaced)
            · exact .copyingSymbols (htree ▸ hbinary) hupdates
            · exact .withSymbols rfl (htree ▸ hbinary) (hsame.trans hdirectory ▸ hreplaced)
          · rintro result after (⟨rfl, -⟩ | ⟨e, rfl, hkept⟩)
            · exact .inl rfl
            · exact .inr ⟨e, rfl, (htree ▸ hbinary).of_same hkept⟩
        · rintro e after - ⟨htree, -⟩
          exact .inr ⟨e, rfl, htree ▸ hbinary⟩
      refine hends.bind ?_ ?_
      · rintro _ after - hafter -
        exact Attempt.course_pure hafter (.inl ⟨_, rfl⟩)
      · rintro e after - (⟨⟨⟩⟩ | ⟨_, -, hkept⟩)
        exact .inr ⟨e, rfl, hkept⟩

theorem withdraw_eq (p : Path) :
    ∃ record : Except FileError Unit → Procedure Unit,
      withdraw p = (Attempt.removeFile p).run.bind record ∧
        ∀ removed h, ∀ s ∈ (record removed).states h, s.tree = h.tree := by
  refine ⟨_, rfl, ?_⟩
  rintro (e | _) h s hs
  · rcases List.mem_pair.mp hs with rfl | rfl <;> rfl
  · exact List.mem_singleton.mp hs ▸ rfl

theorem course_withdraw {always : FileTree → Prop} {ends : Except FileError Unit → Host → Prop}
    (hremoved : (Attempt.removeFile p).Course always ends h) :
    (monadLift (withdraw p) : Attempt FileError Unit).Course always
      (fun result h' => result = .ok () ∧
        ∃ removed after, ends removed after ∧ h'.tree = after.tree) h := by
  obtain ⟨record, hsame, hrecord⟩ := withdraw_eq p
  rw [hsame]
  apply Attempt.course_lift
  · intro s hs
    rcases Procedure.mem_states_bind.mp hs with hfirst | hlast
    · exact hremoved.along s hfirst
    · rw [hrecord _ _ s hlast]
      exact hremoved.along _ (Procedure.mem_states_run _ _)
  · rw [Procedure.run_bind]
    exact ⟨rfl, _, _, hremoved.ends, hrecord _ _ _ (Procedure.mem_states_run _ _)⟩

/-- What the second half leaves of the first when it has failed. -/
inductive Remains (base : Host) (binary output : Path) (parent : Place) (cause : FileCause)
    (t : FileTree) : Prop
  | withdrawn
      (hlocated : base.tree.locate false base.directory output = .ok (parent ++ [output.name]))
      (hupdates : base.tree.Updates (parent ++ [output.name]) none t)
  /-- The output has taken the place of a link on the way to it, so that its path does not lead to it
  any more. -/
  | stuck {content : Bytes} (hway : parent ++ [output.name] ∈
        base.tree.wayTo true base.directory output.parent)
      (hlost : ∀ n, t.find false base.directory output ≠ .ok (parent ++ [output.name], n))
      (hbinary : Replaced base.directory binary output parent content base.tree t)
  | abandoned {content : Bytes} (hcause : cause = .nullCharacter)
      (hbinary : Replaced base.directory binary output parent content base.tree t)

theorem Prepared.found_output (hprepared : Prepared base names output parent)
    (hdirectory : between.directory = base.directory)
    (hbinary : Replaced base.directory binary output parent content base.tree between.tree)
    (hway : parent ++ [output.name] ∉ base.tree.wayTo true base.directory output.parent) :
    between.tree.find false between.directory output =
      .ok (parent ++ [output.name], .file content false) := by
  have hsame : ∀ p ∈ base.tree.wayTo true base.directory output.parent,
      between.tree.get? p = base.tree.get? p := by
    intro p hp
    exact hbinary.updates.other fun hsame => hway (hsame ▸ hp)
  obtain ⟨hlocate, hnode⟩ := find_eq_ok_iff.mp hprepared.found
  obtain ⟨haskable, hwalks⟩ := locate_eq_ok_iff.mp hlocate
  have hparent : between.tree.find true between.directory output.parent =
      .ok (parent, .directory) := by
    rw [hdirectory]
    refine find_eq_ok_iff.mpr ⟨locate_eq_ok_iff.mpr ⟨haskable, ?_⟩, ?_⟩
    · exact walk_iff.mp ((walk_congr hsame).trans hwalks.walk)
    · rw [hsame _ hwalks.mem_way, hnode]
  exact find_eq_ok_iff.mpr
    ⟨locate_entry_of_locate hparent hbinary.entry hbinary.located, hbinary.updates.self⟩

theorem course_rollback (hprepared : Prepared base names output parent)
    (hdirectory : between.directory = base.directory)
    (hbinary : Replaced base.directory binary output parent content base.tree between.tree)
    (e : FileError) :
    (do
      unless e.cause = .nullCharacter do withdraw output
      throw e : Attempt FileError (Path × Option Path)).Course
      (Stage base names binary output symbols parent)
      (fun result h' => result = .error e ∧ Remains base binary output parent e.cause h'.tree)
      between := by
  have hstart : Stage base names binary output symbols parent between.tree := .published hbinary
  by_cases hcause : e.cause = .nullCharacter
  · rw [if_pos hcause]
    exact Attempt.course_throw hstart ⟨rfl, .abandoned hcause hbinary⟩
  · rw [if_neg hcause]
    have hremoved := hprepared.course_removeFile hdirectory hbinary hbinary.entry rfl hstart
      fun t hupdates => .withdrawn (hbinary.updates.again hupdates)
    refine (course_withdraw hremoved).bind ?_ (by rintro e' after - ⟨⟨⟩, -⟩)
    rintro _ after - hafter ⟨-, _, removed, hends, htree⟩
    refine Attempt.course_throw hafter ⟨rfl, ?_⟩
    rw [htree]
    rcases hends with ⟨-, hsame, hfailed⟩ | ⟨-, hupdates⟩
    · have hlost : ∀ n, between.tree.find false base.directory output ≠
          .ok (parent ++ [output.name], n) := by
        rintro n hfound
        obtain rfl := Option.some.inj ((find_eq_ok_iff.mp hfound).2.symm.trans hbinary.updates.self)
        exact hfailed _ (by rw [removeFile, hdirectory, hfound])
      rw [hsame]
      refine .stuck (Classical.byContradiction fun hway => ?_) hlost hbinary
      have hfound := hprepared.found_output hdirectory hbinary hway
      exact hlost _ (hdirectory ▸ hfound)
    · exact .withdrawn hbinary.located (hbinary.updates.again hupdates)

end Second

section Whole

variable {names : CopyNames} {binary output : Path} {symbols : Option Path}

/-- The names drawn at random are not taken in the directory of the output. -/
def Unused (h : Host) (names : CopyNames) (output : Path) (t : FileTree) : Prop :=
  ∀ parent, (prepared h output).tree.find true (prepared h output).directory output.parent =
      .ok (parent, .directory) →
    t.get? (parent ++ [(temporaryPath output names.binary).name]) = none ∧
      t.get? (parent ++ [(temporaryPath (output.withExtension ".pdb") names.symbols).name]) = none

theorem unused_of_vacant {t : FileTree}
    (hparent : (prepared h output).tree.find true (prepared h output).directory output.parent =
      .ok (parent, .directory))
    (hvacant : t.get? (parent ++ [(temporaryPath output names.binary).name]) = none)
    (hsymbols : t.get?
      (parent ++ [(temporaryPath (output.withExtension ".pdb") names.symbols).name]) = none) :
    Unused h names output t := by
  intro parent' hparent'
  rw [hparent, Except.ok.injEq, Prod.mk.injEq] at hparent'
  exact hparent'.1 ▸ ⟨hvacant, hsymbols⟩

theorem sound_staleHost : staleHost.Sound :=
  ⟨rooted_of_nodes (by decide +kernel), by decide +kernel⟩

theorem unused_staleHost : Unused staleHost ⟨"1a".toList, "2b".toList⟩ "/out/app.dll"
    (prepared staleHost "/out/app.dll").tree := by
  have hparent : (prepared staleHost "/out/app.dll").tree.find true
      (prepared staleHost "/out/app.dll").directory (Path.parent "/out/app.dll") =
        .ok (["out".toList], .directory) := by decide +kernel
  exact unused_of_vacant hparent (by decide +kernel) (by decide +kernel)

inductive Passing (h : Host) (names : CopyNames) (binary output : Path) (symbols : Option Path)
    (t : FileTree) : Prop
  | preparing (hgrows : h.tree.GrowsIn (· ∈ h.tree.wayTo true h.directory output.parent) t)
  | copying {parent : Place} (hprepared : Prepared (prepared h output) names output parent)
      (hstage : Stage (prepared h output) names binary output symbols parent t)

inductive Broken (h : Host) (names : CopyNames) (binary output : Path) (cause : FileCause)
    (t : FileTree) : Prop
  | unpublished (hsame : ∀ p, t.get? p = (prepared h output).tree.get? p)
  | remains {parent : Place} (hprepared : Prepared (prepared h output) names output parent)
      (hremains : Remains (prepared h output) binary output parent cause t)

def PublishEnds (h : Host) (names : CopyNames) (binary output : Path)
    (result : Except FileError (Path × Option Path)) (h' : Host) : Prop :=
  (∃ published, result = .ok published) ∨
    ∃ e, result = .error e ∧ Broken h names binary output e.cause h'.tree

theorem prepared_of_ensure (hsound : h.Sound) (hunused : Unused h names output (prepared h output).tree)
    (hnamed : output.name ≠ []) (hready : (Directories.ensure output.parent).on h = (.ok (), h')) :
    prepared h output = h' ∧ ∃ parent, Prepared h' names output parent := by
  have hsame : prepared h output = h' := by rw [prepared, hready]
  obtain ⟨parent, hfound⟩ := isDirectory_iff.mp (Directories.isDirectory_of_on_ensure hready)
  rw [Unused, hsame] at hunused
  obtain ⟨hvacant, hsymbols⟩ := hunused parent hfound
  have hthere := Directories.on_ensure_sound hsound output.parent
  rw [hready] at hthere
  exact ⟨hsame, parent, hthere, hfound, hvacant, hsymbols, hnamed⟩

theorem course_replace_binary (hsound : h.Sound) (hunused : Unused h names output (prepared h output).tree)
    (hnamed : output.name ≠ []) :
    (replace chunking names.binary binary output).Course (Passing h names binary output symbols)
      (fun result h' =>
        (result = .ok () ∧ ∃ parent content, Prepared (prepared h output) names output parent ∧
          Replaced (prepared h output).directory binary output parent content
            (prepared h output).tree h'.tree) ∨
        ∃ e, result = .error e ∧ ∀ p, h'.tree.get? p = (prepared h output).tree.get? p) h := by
  rw [replace_eq]
  refine ((Directories.course_ensure h output.parent).mono (fun _ => .preparing)
    fun _ _ => id).bind ?_ ?_
  · rintro _ h' - - hready
    obtain ⟨rfl, parent, hprepared⟩ := prepared_of_ensure hsound hunused hnamed hready
    refine (course_swap hprepared.beside_binary).mono ?_ ?_
    · rintro t (hupdates | hreplaced)
      · exact .copying hprepared (.copying hupdates)
      · exact .copying hprepared (.published hreplaced)
    · rintro result after (⟨rfl, content, hreplaced⟩ | hfailed)
      · exact .inl ⟨rfl, parent, content, hprepared, hreplaced⟩
      · exact .inr hfailed
  · rintro e h' - hready
    exact .inr ⟨e, rfl, by simp [prepared, hready]⟩

theorem course_publish (hsound : h.Sound) (hunused : Unused h names output (prepared h output).tree)
    (hnamed : output.name ≠ []) :
    (publish chunking names binary output symbols).Course (Passing h names binary output symbols)
      (fun result h' => ∃ outcome,
        result = outcome.mapError (fun e => .artifact (.publication output e)) ∧
          PublishEnds h names binary output outcome h') h := by
  have hsame : (prepared h output).directory = h.directory := Attempt.on_directory _ h
  rw [publish, if_neg hnamed]
  apply Attempt.Course.rephrase
  refine (course_replace_binary hsound hunused hnamed).bind ?_ ?_
  · rintro _ between hdirectory - (⟨-, parent, content, hprepared, hbinary⟩ | ⟨_, ⟨⟩, -⟩)
    rw [← hsame] at hdirectory
    have hpassing := fun t (ht : Stage (prepared h output) names binary output symbols parent t) =>
      Passing.copying hprepared ht
    refine ((course_publishSymbols hprepared hdirectory hbinary).mono hpassing
      fun _ _ => id).outcome.bind ?_ (by rintro e _ - ⟨_, ⟨⟩, -⟩)
    rintro _ after hkept hafter ⟨_, ⟨⟩, (⟨siblings, rfl⟩ | ⟨e, rfl, hstill⟩)⟩
    · exact Attempt.course_pure hafter (.inl ⟨_, rfl⟩)
    · refine (course_rollback hprepared (hkept.trans hdirectory) hstill e).mono hpassing ?_
      rintro result last ⟨rfl, hremains⟩
      exact .inr ⟨e, rfl, .remains hprepared hremains⟩
  · rintro e h' - (⟨⟨⟩, -⟩ | ⟨e', herror, hafter⟩)
    cases herror
    exact .inr ⟨e, rfl, .unpublished hafter⟩

end Whole

end Publication

end ScriptWeave
