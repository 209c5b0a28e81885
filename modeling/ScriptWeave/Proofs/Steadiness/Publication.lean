import ScriptWeave.Proofs.Course.Publication
import ScriptWeave.Proofs.Steadiness.Directories

namespace ScriptWeave.Publication

open FileTree Attempt

variable {own kept foreign : Place → Prop} {h h' : Host} {names : CopyNames} {chunking : Chunking}
variable {source temporary target output p : Path} {parent : Place}

/-! ### Copies -/

theorem steady_requireAskable (p : Path) : (requireAskable p).Steady own kept foreign h := by
  rw [requireAskable]
  split
  · exact steady_throw _
  · exact steady_pure _

def Spared (own kept foreign : Place → Prop) (h : Host) (p : Path) : Prop :=
  ∀ q ∈ h.tree.wayTo true h.directory p, Firm kept foreign h.tree q ∧ ¬ own q

theorem Spared.later (hspared : Spared own kept foreign h p) (hdirectory : h'.directory = h.directory)
    (hsame : ∀ q, ¬ own q → h'.tree.get? q = h.tree.get? q) : Spared own kept foreign h' p := by
  have hway : h'.tree.wayTo true h.directory p = h.tree.wayTo true h.directory p :=
    way_congr fun q hq target => by rw [hsame q (hspared q hq).2]
  rw [Spared, hdirectory, hway]
  intro q hq
  obtain ⟨⟨hfree, hfirm⟩, hnot⟩ := hspared q hq
  exact ⟨⟨hfree, hfirm.imp_right fun hthere => by rwa [hsame q hnot]⟩, hnot⟩

theorem Spared.grows {places : Place → Prop} (hspared : Spared own kept foreign h p)
    (hgrows : h.GrowsIn places h') : Spared own kept foreign h' p := by
  rw [Spared, hgrows.directory, hgrows.tree.wayTo]
  intro q hq
  obtain ⟨⟨hfree, hfirm⟩, hnot⟩ := hspared q hq
  refine ⟨⟨hfree, hfirm.imp_right fun hthere => ?_⟩, hnot⟩
  obtain ⟨n, hn⟩ := Option.isSome_iff_exists.mp hthere
  rw [hgrows.tree.extends q n hn]
  rfl

/-- The temporary file and the target are one's own, and neither is on the way to their directory. -/
structure Swappable (own kept foreign : Place → Prop) (h : Host) (temporary target : Path)
    (parent : Place) : Prop where
  beside : Beside h temporary target parent
  way : ∀ q ∈ h.tree.wayTo true h.directory target.parent, ¬ foreign q ∧ ¬ own q
  entry : NamesEntry target.name
  files : ∀ p, p = temporary ∨ p = target →
    own (parent ++ [p.name]) ∧ kept (parent ++ [p.name]) ∧ ¬ foreign (parent ++ [p.name])

section Swappable

variable (hswap : Swappable own kept foreign h temporary target parent)

include hswap

theorem Swappable.ownEntry (hp : p = temporary ∨ p = target) (hdirectory : h'.directory = h.directory)
    (hsame : ∀ q, ¬ own q → h'.tree.get? q = h.tree.get? q) :
    OwnEntry own kept foreign h' p parent := by
  obtain ⟨hown, hkept, hfree⟩ := hswap.files p hp
  have hparent : p.parent = target.parent := by
    rcases hp with rfl | rfl
    · exact hswap.beside.sibling
    · rfl
  have hname : NamesEntry p.name := by
    rcases hp with rfl | rfl
    · exact hswap.beside.entry
    · exact hswap.entry
  have hpresent := present_of_find hswap.beside.sound.rooted hswap.beside.sound.standing
    hswap.beside.found
  have hhere : OwnEntry own kept foreign h p parent := by
    refine ⟨hparent ▸ hswap.beside.found, ?_, hname, hown, hfree, .inl hkept⟩
    rw [hparent]
    exact fun q hq => ⟨(hswap.way q hq).1, .inr (hpresent q hq)⟩
  apply hhere.later hdirectory ?_ hkept
  rw [hparent]
  exact fun q hq => hsame q (hswap.way q hq).2

theorem Swappable.same_of_updates {n : Option Node}
    (hupdates : h.tree.Updates (parent ++ [temporary.name]) n h'.tree) :
    ∀ q, ¬ own q → h'.tree.get? q = h.tree.get? q := by
  intro q hq
  apply hupdates.other
  rintro rfl
  exact hq (hswap.files temporary (.inl rfl)).1

theorem Swappable.same_of_replaced {content : Bytes} {directory : Place}
    (hreplaced : Replaced directory source target parent content h.tree h'.tree) :
    ∀ q, ¬ own q → h'.tree.get? q = h.tree.get? q := by
  intro q hq
  apply hreplaced.updates.other
  rintro rfl
  exact hq (hswap.files target (.inr rfl)).1

theorem Swappable.steady_appendAll {between : Host} (chunks : List Bytes)
    (hdirectory : between.directory = h.directory)
    (hsame : ∀ q, ¬ own q → between.tree.get? q = h.tree.get? q)
    (hlink : ∀ target, between.tree.get? (parent ++ [temporary.name]) ≠ some (.link target)) :
    (appendAll temporary chunks).Steady own kept foreign between := by
  induction chunks generalizing between with
  | nil => exact steady_pure _
  | cons chunk chunks ih =>
      have hentry := hswap.ownEntry (.inl rfl) hdirectory hsame
      refine Attempt.Steady.bind (hentry.steady_append hlink chunk) fun _ hon => ?_
      obtain ⟨tree, happended, hafter⟩ := on_append_eq_ok_iff.mp (on_eq hon)
      obtain ⟨q, n, hlocate, -, hupdates, hleads⟩ := updates_of_modifyFile happended
      obtain rfl := hentry.place_of_locate (fun _ => hlink) hlocate
      rw [hafter]
      refine ih hdirectory (fun q hq => ?_) fun target => ?_
      · rw [Host.withTree_tree, hupdates.other, hsame q hq]
        rintro rfl
        exact hq hentry.own
      · rw [Host.withTree_tree, hupdates.self]
        rintro ⟨⟩
        simp [Node.leadsOn] at hleads

theorem Swappable.steady_copyThrough (hsource : Spared own kept foreign h source) :
    (copyThrough chunking source temporary target).Steady own kept foreign h := by
  have hbeside := hswap.beside
  have hvacant : ∀ target, h.tree.get? (parent ++ [temporary.name]) ≠ some (.link target) := by
    simp [hbeside.vacant]
  have hentry := hswap.ownEntry (.inl rfl) rfl fun _ _ => rfl
  refine Attempt.Steady.bind (steady_requireAskable source) fun _ hon => ?_
  rw [← on_requireAskable (on_eq hon)]
  refine Attempt.Steady.bind (steady_requireAskable temporary) fun _ hon => ?_
  rw [← on_requireAskable (on_eq hon)]
  refine Attempt.Steady.bind (steady_read fun q hq => (hsource q hq).1) fun content _ => ?_
  refine Attempt.Steady.bind (hentry.steady_write hvacant []) fun _ hon => ?_
  obtain ⟨hlocated, tree, hwritten, hupdates⟩ := on_write_vacant (.refl h.tree)
    (hbeside.sibling ▸ hbeside.found) hbeside.entry hbeside.vacant (on_eq hon)
  show Attempt.Steady own kept foreign _ ((write temporary []).on h).2
  rw [hwritten]
  refine Attempt.Steady.bind (hswap.steady_appendAll _ rfl (hswap.same_of_updates hupdates)
    (by simp [hupdates.self])) fun _ _ => ?_
  have happended : (appendAll temporary (chunking.chunks content)).Course
      (Copying h source temporary target parent) _ (h.withTree tree) :=
    course_appendAll hbeside hlocated rfl hupdates
  obtain ⟨-, hcopied⟩ := happended.ends
  have hdirectory := on_directory (appendAll temporary (chunking.chunks content)) (h.withTree tree)
  have hsame := hswap.same_of_updates hcopied
  have hfirst := hswap.ownEntry (.inl rfl) hdirectory hsame
  have hsecond := hswap.ownEntry (.inr rfl) hdirectory hsame
  refine steady_move (fun q hq => ?_) (hfirst.firm_way (by simp)) (hsecond.firm_way (by simp))
    fun q hq => hq.elim (hfirst.own_of_locate (by simp)) (hsecond.own_of_locate (by simp))
  obtain ⟨hlocate, hnode⟩ := find_eq_ok_iff.mp hq
  rw [hfirst.place_of_locate (by simp) hlocate, hcopied.self] at hnode
  simp at hnode

end Swappable

theorem same_of_copyEnds {result : Except FileError Unit}
    (hswap : Swappable own kept foreign h temporary target parent)
    (hapart : temporary.name ≠ target.name)
    (hends : CopyEnds h source temporary target parent result h') :
    (∀ q, ¬ own q → h'.tree.get? q = h.tree.get? q) ∧
      ∀ target, h'.tree.get? (parent ++ [temporary.name]) ≠ some (.link target) := by
  rcases hends with ⟨-, -, content, hreplaced⟩ | ⟨e, -, hleft | ⟨-, hupdates⟩⟩
  · refine ⟨hswap.same_of_replaced hreplaced, fun target => ?_⟩
    rw [hreplaced.updates.other (by simpa using hapart), hswap.beside.vacant]
    simp
  · rw [hleft, hswap.beside.vacant]
    exact ⟨fun _ _ => rfl, by simp⟩
  · exact ⟨hswap.same_of_updates hupdates, by simp [hupdates.self]⟩

theorem steady_swap {name : Text}
    (hswap : Swappable own kept foreign h (temporaryPath target name) target parent)
    (hsource : Spared own kept foreign h source) :
    (swap chunking name source target).Steady own kept foreign h := by
  refine Attempt.Steady.bind (Attempt.Steady.outcome (hswap.steady_copyThrough hsource))
    fun copied _ => ?_
  have hcopied : (copyThrough chunking source (temporaryPath target name) target).Course
      (Copying h source (temporaryPath target name) target parent) _ h :=
    course_copyThrough hswap.beside
  obtain ⟨hsame, hlink⟩ := same_of_copyEnds hswap (temporaryPath_ne target name) hcopied.ends
  have hentry := hswap.ownEntry (.inl rfl) (on_directory _ h) hsame
  rw [on_outcome]
  refine Attempt.Steady.bind ?_ fun _ _ => steady_ofOutcome _
  refine Attempt.Steady.bind (hentry.steady_isPresent hlink) fun present _ => ?_
  cases present with
  | false => exact steady_pure _
  | true => exact hentry.steady_removeFile

/-! ### Publications -/

def files (names : CopyNames) (output : Path) : List Path :=
  [output, output.withExtension ".pdb", temporaryPath output names.binary,
    temporaryPath (output.withExtension ".pdb") names.symbols]

/-- The directory of the output is there, and what is put into it is one's own. -/
structure Site (own kept foreign : Place → Prop) (h : Host) (names : CopyNames) (output : Path)
    (parent : Place) : Prop where
  prepared : Prepared h names output parent
  way : ∀ q ∈ h.tree.wayTo true h.directory output.parent, ¬ foreign q ∧ ¬ own q
  entry : NamesEntry output.name
  files : ∀ p ∈ files names output,
    own (parent ++ [p.name]) ∧ kept (parent ++ [p.name]) ∧ ¬ foreign (parent ++ [p.name])

section Site

variable {binary : Path} {between : Host} {content : Bytes}
  (hsite : Site own kept foreign h names output parent)

include hsite

theorem Site.swappable :
    Swappable own kept foreign h (temporaryPath output names.binary) output parent where
  beside := hsite.prepared.beside_binary
  way := hsite.way
  entry := hsite.entry
  files := by
    rintro p (rfl | rfl) <;> exact hsite.files _ (by simp [Publication.files])

variable (hdirectory : between.directory = h.directory)
  (hbinary : Replaced h.directory binary output parent content h.tree between.tree)

include hdirectory hbinary

theorem Site.swappable_symbols :
    Swappable own kept foreign between
      (temporaryPath (output.withExtension ".pdb") names.symbols) (output.withExtension ".pdb")
      parent := by
  have hparent : (output.withExtension ".pdb").parent = output.parent := Path.withName_parent _ _
  have hentry := hsite.swappable.ownEntry (.inr rfl) hdirectory
    (hsite.swappable.same_of_replaced hbinary)
  refine ⟨hsite.prepared.beside_symbols hdirectory hbinary (isDirectory_iff.mpr ⟨_, hentry.parent⟩),
    ?_, namesEntry_symbols output, ?_⟩
  · have hway : between.tree.wayTo true h.directory output.parent =
        h.tree.wayTo true h.directory output.parent :=
      way_congr fun q hq target => by
        rw [hsite.swappable.same_of_replaced hbinary q (hsite.way q hq).2]
    rw [hparent, hdirectory, hway]
    exact hsite.way
  · rintro p (rfl | rfl) <;> exact hsite.files _ (by simp [Publication.files])

theorem Site.steady_publishSymbols {symbols : Option Path}
    (hsource : ∀ source, symbols = some source → Spared own kept foreign between source) :
    (publishSymbols chunking names.symbols (output.withExtension ".pdb") symbols).Steady
      own kept foreign between := by
  have hswap := hsite.swappable_symbols hdirectory hbinary
  have hentry := hswap.ownEntry (.inr rfl) rfl fun _ _ => rfl
  cases symbols with
  | none =>
      refine Attempt.Steady.bind ?_ fun _ _ => steady_pure _
      refine Attempt.Steady.bind (Attempt.Steady.outcome hentry.steady_removeFile) fun result _ => ?_
      cases result with
      | ok u => exact steady_ofOutcome _
      | error e =>
          obtain ⟨cause, q⟩ := e
          cases cause with
          | missing => exact steady_pure _
          | _ => exact steady_ofOutcome _
  | some source =>
      refine Attempt.Steady.bind ?_ fun _ _ => steady_pure _
      have hensured := Directories.on_ensure_of_isDirectory (isDirectory_iff.mpr ⟨_, hentry.parent⟩)
      rw [replace_eq]
      refine Attempt.Steady.bind (Directories.steady_ensure hswap.beside.sound
        (fun q hq => (hswap.way q hq).1) hensured) fun _ _ => ?_
      rw [hensured]
      exact steady_swap hswap (hsource source rfl)

theorem Site.steady_withdraw : (withdraw output).Steady own kept foreign between := by
  have hentry := hsite.swappable.ownEntry (.inr rfl) hdirectory
    (hsite.swappable.same_of_replaced hbinary)
  refine Procedure.Steady.bind hentry.steady_removeFile ?_
  cases ((Procedure.ask (.removeFile output)).run between).1 with
  | ok u => exact Procedure.steady_done _
  | error e => exact Procedure.steady_log _ _ _ _

end Site

section Whole

variable {binary : Path} {symbols : Option Path} {z : Host}
  (hway : ∀ q ∈ h.tree.wayTo true h.directory output.parent, ¬ foreign q ∧ ¬ own q)
  (hmade : (Directories.ensure output.parent).on h = (.ok (), z))

include hway hmade

theorem site_of_ensure (hsound : h.Sound) (hentry : NamesEntry output.name)
    (hfiles : ∀ p ∈ files names output, own (h.tree.goal h.directory output.parent ++ [p.name]) ∧
      kept (h.tree.goal h.directory output.parent ++ [p.name]) ∧
      ¬ foreign (h.tree.goal h.directory output.parent ++ [p.name]))
    (hvacant : ∀ p ∈ [temporaryPath output names.binary,
        temporaryPath (output.withExtension ".pdb") names.symbols],
      h.tree.get? (h.tree.goal h.directory output.parent ++ [p.name]) = none) :
    Site own kept foreign z names output (h.tree.goal h.directory output.parent) := by
  have hz := Directories.on_ensure_sound hsound output.parent
  have hgrows := Directories.on_ensure_growsIn h output.parent
  have hthere := Directories.isDirectory_of_on_ensure hmade
  rw [hmade] at hz hgrows
  obtain ⟨parent, hfound⟩ := isDirectory_iff.mp hthere
  obtain rfl : parent = h.tree.goal h.directory output.parent := by
    rw [← goal_of_find hfound, hgrows.directory]
    exact goal_congr (hgrows.tree.wayTo true _ _)
  have hunmade : ∀ p ∈ files names output,
      h.tree.get? (h.tree.goal h.directory output.parent ++ [p.name]) = none →
        z.tree.get? (h.tree.goal h.directory output.parent ++ [p.name]) = none := by
    intro p hp hnone
    rcases hgrows.tree (h.tree.goal h.directory output.parent ++ [p.name]) with hsame | ⟨hq, -⟩
    · rw [hsame, hnone]
    · exact absurd (hfiles p hp).1 (hway _ hq).2
  have hnamed : output.name ≠ [] := name_ne_nil hentry
  refine ⟨⟨hz, hfound, hunmade _ ?_ (hvacant _ ?_), hunmade _ ?_ (hvacant _ ?_), hnamed⟩, ?_,
    hentry, hfiles⟩
  · simp [files]
  · simp
  · simp [files]
  · simp
  · rw [hgrows.tree.wayTo, hgrows.directory]
    exact hway

theorem steady_publish (hsound : h.Sound) (hsite : Site own kept foreign z names output parent)
    (hbinary : Spared own kept foreign h binary)
    (hsymbols : ∀ source, symbols = some source → Spared own kept foreign h source) :
    (publish chunking names binary output symbols).Steady own kept foreign h := by
  have hgrows := Directories.on_ensure_growsIn h output.parent
  rw [hmade] at hgrows
  have hreplace : (replace chunking names.binary binary output).Steady own kept foreign h := by
    rw [replace_eq]
    refine Attempt.Steady.bind (Directories.steady_ensure hsound (fun q hq => (hway q hq).1) hmade)
      fun _ _ => ?_
    rw [hmade]
    exact steady_swap hsite.swappable (hbinary.grows hgrows)
  rw [publish, if_neg hsite.prepared.named]
  refine Attempt.Steady.rephrase (Attempt.Steady.bind hreplace fun _ hon => ?_) _
  have hafter : (replace chunking names.binary binary output).on h =
      (swap chunking names.binary binary output).on z := by
    rw [replace_eq, on_bind, hmade]
  have hswapped : (swap chunking names.binary binary output).Course
      (Copying z binary (temporaryPath output names.binary) output parent) _ z :=
    course_swap hsite.swappable.beside
  have hdirectory := on_directory (swap chunking names.binary binary output) z
  rw [hafter] at hon ⊢
  obtain ⟨-, content, hreplaced⟩ | ⟨e, herror, -⟩ := hswapped.ends
  -- The output is at its place, and is withdrawn from it if its symbols cannot follow.
  · have hsame := hsite.swappable.same_of_replaced hreplaced
    refine Attempt.Steady.bind (Attempt.Steady.outcome (hsite.steady_publishSymbols hdirectory hreplaced
      fun source hsource => ((hsymbols source hsource).grows hgrows).later hdirectory hsame))
      fun outcome houtcome => ?_
    rw [on_outcome] at houtcome ⊢
    have hsiblings : (publishSymbols chunking names.symbols (output.withExtension ".pdb") symbols).Course
        (Stage z names binary output symbols parent) _ _ :=
      course_publishSymbols hsite.prepared hdirectory hreplaced
    obtain rfl := Except.ok.inj houtcome
    rcases hsiblings.ends with ⟨published, hpublished⟩ | ⟨e, herror, hstill⟩
    · rw [hpublished]
      exact steady_pure _
    · rw [herror]
      dsimp only
      have hkept := (on_directory (publishSymbols chunking names.symbols
        (output.withExtension ".pdb") symbols) _).trans hdirectory
      split
      · exact steady_throw _
      · exact Attempt.Steady.bind (Attempt.steady_lift (hsite.steady_withdraw hkept hstill))
          fun _ _ => steady_throw _
  · simp [herror] at hon

end Whole

end ScriptWeave.Publication
