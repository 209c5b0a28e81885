import ScriptWeave.Proofs.Course
import ScriptWeave.Proofs.FileTree.Barred
import ScriptWeave.Proofs.Publication

namespace ScriptWeave

open FileTree

namespace FileTree

theorem Rooted.updates {t t' : FileTree} {p : Place} {n : Option Node} (h : t.Rooted)
    (hp : t.get? p ≠ some .directory) (habove : t.get? p.dropLast = some .directory)
    (hupdates : t.Updates p n t') : t'.Rooted := by
  intro q name m hq
  have hdirectory : t.get? q = some .directory := by
    by_cases hqp : q ++ [name] = p
    · rwa [← hqp, List.dropLast_concat] at habove
    · rw [hupdates.other hqp] at hq
      exact h q name m hq
  rw [hupdates.other, hdirectory]
  rintro rfl
  exact hp hdirectory

end FileTree

theorem Host.Sound.updates {h h' : Host} {p : Place} {n : Option Node} (hsound : h.Sound)
    (hdirectory : h'.directory = h.directory) (hp : h.tree.get? p ≠ some .directory)
    (habove : h.tree.get? p.dropLast = some .directory) (hupdates : h.tree.Updates p n h'.tree) :
    h'.Sound := by
  refine ⟨hsound.rooted.updates hp habove hupdates, ?_⟩
  rw [hdirectory, hupdates.other, hsound.standing]
  rintro hsame
  exact hp (hsame ▸ hsound.standing)

namespace Publication

variable {h h' : Host} {source temporary target p : Path} {parent : Place} {chunking : Chunking}
variable {content : Bytes}

/-- The second tree is the first one with a copy of the source at the target. -/
structure Replaced (directory : Place) (source target : Path) (parent : Place) (content : Bytes)
    (t t' : FileTree) : Prop where
  read : t.readFile directory source = .ok content
  entry : NamesEntry target.name
  located : t.locate false directory target = .ok (parent ++ [target.name])
  free : t.get? (parent ++ [target.name]) ≠ some .directory
  updates : t.Updates (parent ++ [target.name]) (some (.file content false)) t'

/-- A copy can be made beside the target: the directory is there, and the temporary file is not. -/
structure Beside (h : Host) (temporary target : Path) (parent : Place) : Prop where
  sound : h.Sound
  found : h.tree.find true h.directory target.parent = .ok (parent, .directory)
  sibling : temporary.parent = target.parent
  entry : NamesEntry temporary.name
  vacant : h.tree.get? (parent ++ [temporary.name]) = none
  named : target.name ≠ []

/-- While the copy is being made there is at most the temporary file, and then only the target. -/
inductive Copying (h : Host) (source temporary target : Path) (parent : Place) (t : FileTree) : Prop
  | beside {n : Option Node} (hupdates : h.tree.Updates (parent ++ [temporary.name]) n t)
  | moved {content : Bytes} (hreplaced : Replaced h.directory source target parent content h.tree t)

/-- What a copy that broke off leaves: everything as it was, but for the temporary file. -/
inductive Unfinished (h : Host) (temporary : Path) (parent : Place) (h' : Host) : Prop
  | untouched (hsame : h'.tree = h.tree)
  | beside {content : Bytes}
      (hlocated : h.tree.locate false h.directory temporary = .ok (parent ++ [temporary.name]))
      (hupdates : h.tree.Updates (parent ++ [temporary.name]) (some (.file content false)) h'.tree)

def CopyEnds (h : Host) (source temporary target : Path) (parent : Place)
    (result : Except FileError Unit) (h' : Host) : Prop :=
  (result = .ok () ∧ h.tree.locate false h.directory temporary = .ok (parent ++ [temporary.name]) ∧
      ∃ content, Replaced h.directory source target parent content h.tree h'.tree) ∨
    ∃ e, result = .error e ∧ Unfinished h temporary parent h'

theorem course_requireAskable {always : FileTree → Prop} (halways : always h.tree) (p : Path) :
    (requireAskable p).Course always (fun _ h' => h' = h) h := by
  rw [requireAskable]
  split
  · exact Attempt.course_throw halways rfl
  · exact Attempt.course_pure halways rfl

theorem course_write (hbeside : Beside h temporary target parent) (content : Bytes) :
    (Attempt.write temporary content).Course (Copying h source temporary target parent)
      (fun result h' => (∃ e, result = .error e ∧ h' = h) ∨
        (result = .ok () ∧
          h.tree.locate false h.directory temporary = .ok (parent ++ [temporary.name]) ∧
          h.tree.Updates (parent ++ [temporary.name]) (some (.file content false)) h'.tree)) h := by
  have hstart : Copying h source temporary target parent h.tree :=
    .beside (updates_same hbeside.vacant)
  cases hwritten : h.tree.writeFile h.directory temporary content with
  | error cause =>
      have hon : (Attempt.write temporary content).on h = (.error ⟨cause, temporary⟩, h) := by
        show h.attempt temporary (h.tree.writeFile h.directory temporary content) = _
        rw [hwritten]
        rfl
      refine Attempt.course_action rfl hstart ?_ ?_ <;> rw [hon]
      · exact hstart
      · exact .inl ⟨_, rfl, rfl⟩
  | ok tree =>
      have hon := Attempt.on_write_eq_ok_iff.mpr ⟨tree, hwritten, rfl⟩
      obtain ⟨hlocated, _, hafter, hupdates⟩ := on_write_vacant (.refl h.tree)
        (hbeside.sibling ▸ hbeside.found) hbeside.entry hbeside.vacant hon
      refine Attempt.course_action rfl hstart ?_ ?_ <;> rw [hon, hafter]
      · exact .beside hupdates
      · exact .inr ⟨rfl, hlocated, hupdates⟩

theorem course_appendAll {between : Host} {chunks : List Bytes} (hbeside : Beside h temporary target parent)
    (hlocated : h.tree.locate false h.directory temporary = .ok (parent ++ [temporary.name]))
    (hdirectory : between.directory = h.directory)
    (hupdates : h.tree.Updates (parent ++ [temporary.name]) (some (.file content false)) between.tree) :
    (appendAll temporary chunks).Course (Copying h source temporary target parent)
      (fun result h' => result = .ok () ∧ h.tree.Updates (parent ++ [temporary.name])
        (some (.file (content ++ chunks.flatten) false)) h'.tree) between := by
  induction chunks generalizing between content with
  | nil =>
      rw [List.flatten_nil, List.append_nil]
      exact Attempt.course_pure (.beside hupdates) ⟨rfl, hupdates⟩
  | cons chunk chunks ih =>
      have hfollowed : between.tree.locate true between.directory temporary =
          .ok (parent ++ [temporary.name]) := by
        rw [hdirectory]
        exact locate_followed (locate_of_extends hlocated (hupdates.extends (.refl _) hbeside.vacant))
          (by simp [hupdates.self])
      have happended : between.tree.modifyFile between.directory temporary (· ++ chunk) = _ :=
        modifyFile_of_file hbeside.entry hfollowed hupdates.self
      have hon := Attempt.on_append_eq_ok_iff.mpr ⟨_, happended, rfl⟩
      have hagain := hupdates.again
        (updates_put between.tree (.file (content ++ chunk) false) (ne_nil_of_vacant hbeside.vacant))
      have hfirst : (Attempt.append temporary chunk).Course (Copying h source temporary target parent)
          (fun result h' => result = .ok () ∧ h.tree.Updates (parent ++ [temporary.name])
            (some (.file (content ++ chunk) false)) h'.tree) between := by
        refine Attempt.course_action rfl (.beside hupdates) ?_ ?_ <;> rw [hon]
        · exact .beside hagain
        · exact ⟨rfl, hagain⟩
      rw [List.flatten_cons, ← List.append_assoc]
      refine hfirst.bind (fun _ after hafter _ hends => ?_) (fun e after _ hends => nomatch hends.1)
      exact ih (hafter.trans hdirectory) hends.2

theorem entry_of_rename {t t' : FileTree} {directory place : Place} {n : Node}
    (hrooted : t.Rooted) (hstanding : t.get? directory = some .directory)
    (hnamed : target.name ≠ []) (hsource : t.find false directory source = .ok (place, n))
    (hn : n ≠ .directory) (h : t.rename directory source target = .ok t') :
    NamesEntry target.name ∧ ∃ q, t.locate false directory target = .ok q ∧
      t.get? q ≠ some .directory := by
  obtain ⟨q, hlocated⟩ := locate_of_rename h
  have hfree : t.get? q ≠ some .directory := by
    intro hdirectory
    rw [rename, hsource, hlocated] at h
    cases n <;> simp_all
  refine ⟨Classical.byContradiction fun hentry => hfree ?_, q, hlocated, hfree⟩
  exact directory_of_not_entry hrooted hstanding hnamed hentry hlocated

theorem course_move {between : Host} (hbeside : Beside h temporary target parent)
    (hread : h.tree.readFile h.directory source = .ok content)
    (hlocated : h.tree.locate false h.directory temporary = .ok (parent ++ [temporary.name]))
    (hdirectory : between.directory = h.directory)
    (hupdates : h.tree.Updates (parent ++ [temporary.name]) (some (.file content false)) between.tree) :
    (Attempt.move temporary target).Course (Copying h source temporary target parent)
      (CopyEnds h source temporary target parent) between := by
  have hstart : Copying h source temporary target parent between.tree := .beside hupdates
  cases hmoved : between.tree.rename between.directory temporary target with
  | error cause =>
      have hon : (Attempt.move temporary target).on between =
          (.error ⟨cause, temporary⟩, between) := by
        show between.attempt temporary (between.tree.rename _ temporary target) = _
        rw [hmoved]
        rfl
      refine Attempt.course_action rfl hstart ?_ ?_ <;> rw [hon]
      · exact hstart
      · exact .inr ⟨_, rfl, .beside hlocated hupdates⟩
  | ok tree =>
      have hon := Attempt.on_move_eq_ok_iff.mpr ⟨tree, hmoved, rfl⟩
      have hextends := hupdates.extends (.refl h.tree) hbeside.vacant
      have hfound : between.tree.find false between.directory temporary =
          .ok (parent ++ [temporary.name], .file content false) := by
        rw [hdirectory]
        exact find_eq_ok_iff.mpr ⟨locate_of_extends hlocated hextends, hupdates.self⟩
      have hsound : between.Sound := hbeside.sound.updates hdirectory (by simp [hbeside.vacant])
        (by rw [List.dropLast_concat]; exact (find_eq_ok_iff.mp hbeside.found).2) hupdates
      obtain ⟨hentry, q, hplace, hfree⟩ := entry_of_rename hsound.rooted hsound.standing hbeside.named
        hfound (by simp) hmoved
      obtain ⟨hlocate, hafter⟩ := on_move_file hextends (hdirectory ▸ hbeside.found) hentry hfound hon
      obtain rfl : parent ++ [target.name] = q := by
        rw [locate_of_extends hlocate hextends] at hplace
        exact Except.ok.inj hplace
      have hreplaced : Replaced h.directory source target parent content h.tree
          ((between.tree.erase (parent ++ [temporary.name])).put (parent ++ [target.name])
            (.file content false)) := by
        refine ⟨hread, hentry, hdirectory ▸ hlocate, fun hthere => hfree ?_,
          hupdates.moved hbeside.vacant (by simp) _⟩
        exact hextends _ _ hthere
      rw [hafter] at hon
      refine Attempt.course_action rfl hstart ?_ ?_ <;> rw [hon]
      · exact .moved hreplaced
      · exact .inl ⟨rfl, hlocated, _, hreplaced⟩

theorem course_copyThrough (hbeside : Beside h temporary target parent) :
    (copyThrough chunking source temporary target).Course (Copying h source temporary target parent)
      (CopyEnds h source temporary target parent) h := by
  have hstart : Copying h source temporary target parent h.tree :=
    .beside (updates_same hbeside.vacant)
  refine (course_requireAskable hstart source).bind ?_
    (fun e h' _ hsame => .inr ⟨e, rfl, .untouched (hsame ▸ rfl)⟩)
  rintro _ _ - - rfl
  refine (course_requireAskable hstart temporary).bind ?_
    (fun e h' _ hsame => .inr ⟨e, rfl, .untouched (hsame ▸ rfl)⟩)
  rintro _ h - - rfl
  have hread : (Attempt.read source).Course (Copying h source temporary target parent)
      (fun result h' => h' = h ∧
        ∀ content, result = .ok content → h.tree.readFile h.directory source = .ok content) h := by
    refine Attempt.course_action rfl hstart hstart ⟨rfl, fun content hcontent => ?_⟩
    rwa [Attempt.on_read, Attempt.mapError_eq_ok_iff] at hcontent
  refine hread.bind ?_ (fun e h' _ hsame => .inr ⟨e, rfl, .untouched (hsame.1 ▸ rfl)⟩)
  rintro content h - - ⟨rfl, hcontent⟩
  refine (course_write hbeside []).bind ?_ ?_
  · rintro _ written hdirectory - (⟨_, ⟨⟩, -⟩ | ⟨-, hlocated, hwritten⟩)
    have happending : (appendAll temporary (chunking.chunks content)).Course
        (Copying h source temporary target parent) _ written :=
      course_appendAll hbeside hlocated hdirectory hwritten
    refine happending.bind ?_ (fun _ _ _ hends => nomatch hends.1)
    rintro _ copied hafter - ⟨-, hcopied⟩
    rw [List.nil_append, chunking.flatten_chunks] at hcopied
    exact course_move hbeside (hcontent _ rfl) hlocated (hafter.trans hdirectory) hcopied
  · rintro e h' - (⟨_, _, hsame⟩ | ⟨⟨⟩, -⟩)
    exact .inr ⟨e, rfl, .untouched (hsame ▸ rfl)⟩

/-! ### Discarding -/

theorem Replaced.barred {directory : Place} {t t' : FileTree}
    (hreplaced : Replaced directory source target parent content t t') (places : Place → Prop) :
    BarredOn places t t' := by
  intro p _
  by_cases hp : p = parent ++ [target.name]
  · exact .inr ⟨_, hp ▸ hreplaced.updates.self, rfl⟩
  · exact .inl (hreplaced.updates.other hp)

theorem Replaced.sound (hreplaced : Replaced h.directory source target parent content h.tree h'.tree)
    (hsound : h.Sound) (hparent : h.tree.get? parent = some .directory)
    (hdirectory : h'.directory = h.directory) : h'.Sound :=
  hsound.updates hdirectory hreplaced.free (by rwa [List.dropLast_concat]) hreplaced.updates

theorem Beside.not_found (hbeside : Beside h temporary target parent) (hsound : h'.Sound)
    (hdirectory : h'.directory = h.directory)
    (hbarred : BarredOn (· ∈ h.tree.wayTo true h.directory temporary.parent) h.tree h'.tree)
    (hvacant : h'.tree.get? (parent ++ [temporary.name]) = none) (found : Place × Node) :
    h'.tree.find true h'.directory temporary ≠ .ok found := by
  obtain ⟨place, node⟩ := found
  intro hfound
  obtain ⟨hlocate, hnode⟩ := find_eq_ok_iff.mp hfound
  rw [← hdirectory] at hbarred
  have hparent : h.tree.find true h'.directory temporary.parent = .ok (parent, .directory) := by
    rw [hdirectory, hbeside.sibling]
    exact hbeside.found
  obtain ⟨-, hentry⟩ := hbarred.locate_entry hsound.rooted hsound.standing hparent hbeside.entry hlocate
  rw [locate_followed hentry (by simp [hvacant]), Except.ok.injEq] at hlocate
  rw [← hlocate, hvacant] at hnode
  simp at hnode

theorem course_isPresent {always : FileTree → Prop} (halways : always h.tree) (p : Path) :
    (Attempt.isPresent p).Course always
      (fun result h' => h' = h ∧
        ((result = .ok true ∧ ∃ found, h.tree.find true h.directory p = .ok found) ∨
          (result = .ok false ∧ ∀ found, h.tree.find true h.directory p ≠ .ok found) ∨
          (∃ e, result = .error e ∧ h.tree.find true h.directory p = .error .nameTooLong))) h := by
  refine Attempt.course_action rfl halways halways ⟨rfl, ?_⟩
  rw [Attempt.on_isPresent, exists?]
  cases hfind : h.tree.find true h.directory p with
  | ok found => exact .inl ⟨rfl, found, rfl⟩
  | error cause =>
      cases cause with
      | nameTooLong => exact .inr (.inr ⟨_, rfl, rfl⟩)
      | _ => exact .inr (.inl ⟨rfl, by simp⟩)

theorem course_discard_absent {always : FileTree → Prop} (halways : always h.tree)
    (habsent : ∀ found, h.tree.find true h.directory p ≠ .ok found) :
    (discard p).Course always
      (fun result h' => h' = h ∧ (result = .ok () ∨
        ∃ e, result = .error e ∧ h.tree.find true h.directory p = .error .nameTooLong)) h := by
  refine (course_isPresent halways p).bind ?_ ?_
  · rintro _ _ - - ⟨rfl, (⟨-, found, hfound⟩ | ⟨⟨⟩, -⟩ | ⟨_, ⟨⟩, -⟩)⟩
    · exact absurd hfound (habsent found)
    · exact Attempt.course_pure halways ⟨rfl, .inl rfl⟩
  · rintro e _ - ⟨rfl, (⟨⟨⟩, -⟩ | ⟨⟨⟩, -⟩ | ⟨_, ⟨⟩, hlong⟩)⟩
    exact ⟨rfl, .inr ⟨_, rfl, hlong⟩⟩

theorem course_discard_beside {between : Host} {always : FileTree → Prop}
    (hbeside : Beside h temporary target parent) (hdirectory : between.directory = h.directory)
    (hlocated : h.tree.locate false h.directory temporary = .ok (parent ++ [temporary.name]))
    (hupdates : h.tree.Updates (parent ++ [temporary.name]) (some (.file content false)) between.tree)
    (halways : ∀ n t, h.tree.Updates (parent ++ [temporary.name]) n t → always t) :
    (discard temporary).Course always
      (fun result h' => result = .ok () ∧ ∀ p, h'.tree.get? p = h.tree.get? p) between := by
  have hextends := hupdates.extends (.refl h.tree) hbeside.vacant
  have hlocate := locate_of_extends hlocated hextends
  have hfound := find_eq_ok_iff.mpr ⟨locate_followed hlocate (by simp [hupdates.self]), hupdates.self⟩
  have hunfollowed := find_eq_ok_iff.mpr ⟨hlocate, hupdates.self⟩
  rw [← hdirectory] at hfound hunfollowed
  have hstart := halways _ _ hupdates
  refine (course_isPresent hstart temporary).bind ?_ ?_
  · rintro _ between - - ⟨rfl, (⟨⟨⟩, -⟩ | ⟨-, habsent⟩ | ⟨_, ⟨⟩, -⟩)⟩
    · have hagain := hupdates.again
        (updates_erase _ (ne_nil_of_vacant hbeside.vacant))
      have hon : (Attempt.removeFile temporary).on between =
          (.ok (), between.withTree (between.tree.erase (parent ++ [temporary.name]))) := by
        rw [Attempt.on_removeFile, removeFile, hunfollowed]
        rfl
      rw [if_pos rfl]
      refine Attempt.course_action rfl hstart ?_ ?_ <;> rw [hon]
      · exact halways _ _ hagain
      · refine ⟨rfl, fun p => (hagain p).trans ?_⟩
        split
        · rename_i hp
          rw [hp, hbeside.vacant]
        · rfl
    · exact absurd hfound (habsent _)
  · rintro e _ - ⟨rfl, (⟨⟨⟩, -⟩ | ⟨⟨⟩, -⟩ | ⟨_, -, hlong⟩)⟩
    simp [hfound] at hlong

def swap (chunking : Chunking) (name : Text) (source target : Path) : Attempt FileError Unit := do
  let copied ← (copyThrough chunking source (temporaryPath target name) target).outcome
  discard (temporaryPath target name)
  Attempt.ofOutcome copied

theorem replace_eq (chunking : Chunking) (name : Text) (source target : Path) :
    replace chunking name source target =
      (do Directories.ensure target.parent; swap chunking name source target) := rfl

def SwapEnds (h : Host) (source target : Path) (parent : Place)
    (result : Except FileError Unit) (h' : Host) : Prop :=
  (result = .ok () ∧ ∃ content, Replaced h.directory source target parent content h.tree h'.tree) ∨
    ∃ e, result = .error e ∧ ∀ p, h'.tree.get? p = h.tree.get? p

theorem course_swap {name : Text} (hbeside : Beside h (temporaryPath target name) target parent) :
    (swap chunking name source target).Course
      (Copying h source (temporaryPath target name) target parent)
      (SwapEnds h source target parent) h := by
  have hparent := (find_eq_ok_iff.mp hbeside.found).2
  refine (course_copyThrough hbeside).outcome.bind ?_ (by rintro e _ - ⟨_, ⟨⟩, -⟩)
  rintro copied between hdirectory hstart ⟨_, ⟨⟩, hends⟩
  rcases hends with ⟨rfl, hlocated, content, hreplaced⟩ | ⟨e, rfl, hleft | ⟨hlocated, hupdates⟩⟩
  · -- The temporary file has been moved, so that nothing is found of it, whatever became of the way.
    have hgone : between.tree.get? (parent ++ [(temporaryPath target name).name]) = none := by
      rw [hreplaced.updates.other (by simpa using temporaryPath_ne target name), hbeside.vacant]
    have habsent := hbeside.not_found (hreplaced.sound hbeside.sound hparent hdirectory) hdirectory
      (hreplaced.barred _) hgone
    refine (course_discard_absent (.moved hreplaced) habsent).bind ?_ ?_
    · rintro _ _ - - ⟨rfl, -⟩
      exact Attempt.course_ofOutcome (.moved hreplaced) (.inl ⟨rfl, content, hreplaced⟩)
    · rintro e _ - ⟨rfl, (⟨⟨⟩⟩ | ⟨_, -, hlong⟩)⟩
      have hfollowed := locate_followed hlocated (by simp [hbeside.vacant])
      rw [hdirectory, find] at hlong
      rcases locate_of_barred hfollowed (hreplaced.barred _) with herror | ⟨r, hlocate, -⟩
      · simp [herror] at hlong
      · rw [hlocate] at hlong
        dsimp only at hlong
        split at hlong <;> simp at hlong
  · have habsent := hbeside.not_found
      ⟨hleft ▸ hbeside.sound.rooted, by rw [hleft, hdirectory, hbeside.sound.standing]⟩ hdirectory
      (fun _ _ => .inl (by rw [hleft])) (by rw [hleft, hbeside.vacant])
    refine (course_discard_absent hstart habsent).bind ?_ ?_
    · rintro _ _ - - ⟨rfl, -⟩
      exact Attempt.course_ofOutcome hstart (.inr ⟨e, rfl, by simp [hleft]⟩)
    · rintro e _ - ⟨rfl, -⟩
      exact .inr ⟨e, rfl, by simp [hleft]⟩
  · refine (course_discard_beside hbeside hdirectory hlocated hupdates fun _ _ => .beside).bind ?_ ?_
    · rintro _ after - hafter ⟨-, hsame⟩
      exact Attempt.course_ofOutcome hafter (.inr ⟨e, rfl, hsame⟩)
    · rintro _ _ - ⟨⟨⟩, -⟩

end Publication

end ScriptWeave
