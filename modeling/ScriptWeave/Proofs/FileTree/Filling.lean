import ScriptWeave.Proofs.Course.Copying

namespace ScriptWeave.FileTree

variable {t t' t'' : FileTree} {directory place q r : Place} {p : Path} {content content' : Bytes}
variable {n : Node}

/-- A path that the system can be asked about, to an entry that there can be. -/
structure Usable (p : Path) : Prop where
  entry : IsEntry p.name
  askable : Askable p

theorem Usable.locate (hp : Usable p) (hparent : t.find true directory p.parent = .ok (q, .directory)) :
    t.locate false directory p = .ok (q ++ [p.name]) :=
  locate_entry hparent hp.askable hp.entry

def TakesFile (t : FileTree) (q : Place) : Prop :=
  ∀ n, t.get? q = some n → ∃ content runnable, n = .file content runnable

theorem takesFile_of_vacant (h : t.get? q = none) : t.TakesFile q := by
  intro n hn
  simp [h] at hn

theorem takesFile_of_file {runnable : Bool} (h : t.get? q = some (.file content runnable)) :
    t.TakesFile q := by
  intro n hn
  rw [h, Option.some.injEq] at hn
  exact ⟨content, runnable, hn.symm⟩

theorem TakesFile.not_leadsOn (h : t.TakesFile q) (hn : t.get? q = some n) : n.leadsOn = false := by
  obtain ⟨content, runnable, rfl⟩ := h n hn
  rfl

theorem TakesFile.not_directory (h : t.TakesFile q) : t.get? q ≠ some .directory := by
  intro hdirectory
  obtain ⟨_, _, hfile⟩ := h _ hdirectory
  simp at hfile

theorem TakesFile.not_link (h : t.TakesFile q) (target : Text) : t.get? q ≠ some (.link target) := by
  intro hlink
  obtain ⟨_, _, hfile⟩ := h _ hlink
  simp at hfile

theorem TakesFile.of_same (h : t.TakesFile q) (hsame : t'.get? q = t.get? q) : t'.TakesFile q := by
  intro n hn
  exact h n (hsame ▸ hn)

/-- A file with that content has been put where there was nothing or a file. -/
structure Fills (t : FileTree) (q : Place) (content : Bytes) (t' : FileTree) : Prop where
  before : t.TakesFile q
  after : ∃ runnable, t.Updates q (some (.file content runnable)) t'

namespace Fills

theorem self (h : t.Fills q content t') : ∃ runnable, t'.get? q = some (.file content runnable) := by
  obtain ⟨runnable, hupdates⟩ := h.after
  exact ⟨runnable, hupdates.self⟩

theorem other (h : t.Fills q content t') (hr : r ≠ q) : t'.get? r = t.get? r := by
  obtain ⟨_, hupdates⟩ := h.after
  exact hupdates.other hr

theorem again (h : t.Fills q content t') (h' : t'.Fills q content' t'') :
    t.Fills q content' t'' := by
  obtain ⟨_, hupdates⟩ := h.after
  obtain ⟨runnable, hupdates'⟩ := h'.after
  exact ⟨h.before, runnable, hupdates.again hupdates'⟩

theorem takesFile (h : t.Fills q content t') (hr : t.TakesFile r) : t'.TakesFile r := by
  by_cases hrq : r = q
  · obtain ⟨runnable, hnode⟩ := h.self
    exact hrq ▸ takesFile_of_file hnode
  · exact hr.of_same (h.other hrq)

theorem stays (h : t.Fills q content t') (hn : n.leadsOn = true) (hr : t.get? r = some n) :
    t'.get? r = some n := by
  rw [h.other, hr]
  rintro rfl
  simp [h.before.not_leadsOn hr] at hn

theorem not_link (h : t.Fills q content t') (hr : t'.get? r = some n) (hn : n.leadsOn = true) :
    t.get? r = some n := by
  by_cases hrq : r = q
  · obtain ⟨runnable, hnode⟩ := h.self
    rw [hrq, hnode, Option.some.injEq] at hr
    rw [← hr] at hn
    simp [Node.leadsOn] at hn
  · rwa [h.other hrq] at hr

theorem locate {follow : Bool} (h : t.Fills q content t')
    (hp : t.locate follow directory p = .ok r) : t'.locate follow directory p = .ok r := by
  obtain ⟨haskable, hwalks⟩ := locate_eq_ok_iff.mp hp
  exact locate_eq_ok_iff.mpr ⟨haskable, hwalks.of_ways (fun _ _ => h.stays)
    fun _ _ htarget => h.not_link htarget rfl⟩

theorem find {follow : Bool} (h : t.Fills q content t')
    (hp : t.find follow directory p = .ok (r, n)) (hr : r ≠ q) :
    t'.find follow directory p = .ok (r, n) := by
  obtain ⟨hlocate, hnode⟩ := find_eq_ok_iff.mp hp
  exact find_eq_ok_iff.mpr ⟨h.locate hlocate, (h.other hr).trans hnode⟩

theorem find_directory {follow : Bool} (h : t.Fills q content t')
    (hp : t.find follow directory p = .ok (r, .directory)) :
    t'.find follow directory p = .ok (r, .directory) := by
  refine h.find hp ?_
  rintro rfl
  exact h.before.not_directory (find_eq_ok_iff.mp hp).2

theorem find_file (h : t.Fills q content t') (follow : Bool)
    (hp : t.locate false directory p = .ok q) :
    ∃ runnable, t'.find follow directory p = .ok (q, .file content runnable) := by
  obtain ⟨runnable, hnode⟩ := h.self
  have hlocate := h.locate hp
  refine ⟨runnable, find_eq_ok_iff.mpr ⟨?_, hnode⟩⟩
  cases follow with
  | false => exact hlocate
  | true => exact locate_followed hlocate (by simp [hnode])

theorem sound {h : Host} (hfills : h.tree.Fills q content t') (hsound : h.Sound)
    (habove : h.tree.get? q.dropLast = some .directory) : (h.withTree t').Sound := by
  obtain ⟨_, hupdates⟩ := hfills.after
  exact hsound.updates rfl hfills.before.not_directory habove hupdates

end Fills

theorem ne_nil_of_takesFile (h : t.TakesFile q) : q ≠ [] := by
  rintro rfl
  exact h.not_directory (get?_root t)

theorem exists_writeFile (content : Bytes) (hp : NamesEntry p.name)
    (hlocate : t.locate false directory p = .ok q) (htakes : t.TakesFile q) :
    ∃ t', t.writeFile directory p content = .ok t' ∧ t.Fills q content t' := by
  have hfollowed := locate_followed hlocate htakes.not_link
  have hne := ne_nil_of_takesFile htakes
  cases hnode : t.get? q with
  | none =>
      exact ⟨_, modifyFile_of_vacant hp hfollowed hnode, htakes, false, updates_put t _ hne⟩
  | some node =>
      obtain ⟨old, runnable, rfl⟩ := htakes node hnode
      exact ⟨_, modifyFile_of_file hp hfollowed hnode, htakes, runnable, updates_put t _ hne⟩

theorem exists_on_write {h : Host} {parent : Place} (content : Bytes) (hsound : h.Sound)
    (husable : Usable p) (hparent : h.tree.find true h.directory p.parent = .ok (parent, .directory))
    (htakes : h.tree.TakesFile (parent ++ [p.name])) :
    ∃ tree, (Attempt.write p content).on h = (.ok (), h.withTree tree) ∧ (h.withTree tree).Sound ∧
      h.tree.Fills (parent ++ [p.name]) content tree := by
  obtain ⟨tree, hwrite, hfills⟩ :=
    exists_writeFile content husable.entry.toNamesEntry (husable.locate hparent) htakes
  refine ⟨tree, Attempt.on_write_eq_ok_iff.mpr ⟨tree, hwrite, rfl⟩, hfills.sound hsound ?_, hfills⟩
  rw [List.dropLast_concat]
  exact (find_eq_ok_iff.mp hparent).2

theorem exists_appendFile {runnable : Bool} (more : Bytes) (hp : NamesEntry p.name)
    (hlocate : t.locate false directory p = .ok q)
    (hnode : t.get? q = some (.file content runnable)) :
    ∃ t', t.appendFile directory p more = .ok t' ∧ t.Fills q (content ++ more) t' := by
  have htakes := takesFile_of_file hnode
  have hfollowed := locate_followed hlocate htakes.not_link
  exact ⟨_, modifyFile_of_file hp hfollowed hnode, htakes, runnable,
    updates_put t _ (ne_nil_of_takesFile htakes)⟩

theorem exists_rename {target : Path} (hfills : t.Fills place content t')
    (hvacant : t.get? place = none) (hsource : t.locate false directory p = .ok place)
    (htarget : t.locate false directory target = .ok q) (htakes : t.TakesFile q) :
    ∃ t'', t'.rename directory p target = .ok t'' ∧ t.Fills q content t'' := by
  obtain ⟨runnable, hfind⟩ := hfills.find_file false hsource
  obtain ⟨_, hupdates⟩ := hfills.after
  have hmoved := hupdates.moved hvacant (ne_nil_of_takesFile htakes) (.file content runnable)
  refine ⟨_, ?_, htakes, runnable, hmoved⟩
  rw [rename, hfind, hfills.locate htarget]
  dsimp only
  split
  · rename_i hdirectory
    exact absurd hdirectory (hfills.takesFile htakes).not_directory
  · rfl

theorem removeFile_of_node (hlocate : t.locate false directory p = .ok q) (hnode : t.get? q = some n)
    (hfile : n ≠ .directory) : t.removeFile directory p = .ok (t.erase q) := by
  rw [removeFile, find_eq_ok_iff.mpr ⟨hlocate, hnode⟩]
  cases n with
  | directory => exact absurd rfl hfile
  | _ => rfl

end ScriptWeave.FileTree
