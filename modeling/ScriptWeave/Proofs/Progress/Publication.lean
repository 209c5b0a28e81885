import ScriptWeave.Proofs.FileTree.Filling
import ScriptWeave.Proofs.Steadiness.Publication

namespace ScriptWeave.Publication

open FileTree

variable {h before : Host} {chunking : Chunking} {names : CopyNames} {name : Text}
variable {source temporary target output binary p : Path} {symbols : Option Path}
variable {parent place : Place} {content : Bytes}

theorem on_requireAskable_of_askable (hp : Askable p) : (requireAskable p).on h = (.ok (), h) := by
  rw [requireAskable, if_neg (Bool.eq_false_iff.mp hp.no_null)]
  rfl

theorem askable_of_readFile (hread : h.tree.readFile h.directory p = .ok content) : Askable p := by
  cases hfind : h.tree.find true h.directory p with
  | error cause => simp [readFile, hfind] at hread
  | ok found => exact (locate_eq_ok_iff.mp (find_eq_ok_iff.mp hfind).1).1

theorem exists_appendAll (hp : NamesEntry p.name) (hlocate : h.tree.locate false h.directory p = .ok place)
    (hnode : ∃ runnable, h.tree.get? place = some (.file content runnable)) (chunks : List Bytes) :
    ∃ tree, (appendAll p chunks).on h = (.ok (), h.withTree tree) ∧
      h.tree.Fills place (content ++ chunks.flatten) tree := by
  induction chunks generalizing h content with
  | nil =>
      obtain ⟨runnable, hnode⟩ := hnode
      refine ⟨h.tree, rfl, takesFile_of_file hnode, runnable, updates_same ?_⟩
      rw [hnode, List.flatten_nil, List.append_nil]
  | cons chunk chunks ih =>
      obtain ⟨runnable, hnode⟩ := hnode
      obtain ⟨grown, happend, hgrown⟩ := exists_appendFile chunk hp hlocate hnode
      obtain ⟨tree, hon, hfills⟩ := ih (h := h.withTree grown) (hgrown.locate hlocate) hgrown.self
      refine ⟨tree, ?_, ?_⟩
      · rw [appendAll, Attempt.on_bind_of_ok (Attempt.on_append_eq_ok_iff.mpr ⟨grown, happend, rfl⟩)]
        exact hon
      · rw [List.flatten_cons, ← List.append_assoc]
        exact hgrown.again hfills

/-- The names that a copy uses in a directory can be used, and a file can be put under that of the
target. -/
structure Copyable (h : Host) (temporary target : Path) (parent : Place) : Prop where
  found : h.tree.find true h.directory target.parent = .ok (parent, .directory)
  sibling : temporary.parent = target.parent
  usable_temporary : Usable temporary
  usable_target : Usable target
  vacant : h.tree.get? (parent ++ [temporary.name]) = none
  takes : h.tree.TakesFile (parent ++ [target.name])

namespace Copyable

variable (hcopy : Copyable h temporary target parent)

include hcopy

theorem locate_temporary :
    h.tree.locate false h.directory temporary = .ok (parent ++ [temporary.name]) :=
  hcopy.usable_temporary.locate (hcopy.sibling ▸ hcopy.found)

theorem locate_target : h.tree.locate false h.directory target = .ok (parent ++ [target.name]) :=
  hcopy.usable_target.locate hcopy.found

theorem exists_copyThrough (chunking : Chunking)
    (hread : h.tree.readFile h.directory source = .ok content) :
    ∃ tree, (copyThrough chunking source temporary target).on h = (.ok (), h.withTree tree) ∧
      h.tree.Fills (parent ++ [target.name]) content tree := by
  have hplace := hcopy.locate_temporary
  have hentry := hcopy.usable_temporary.entry.toNamesEntry
  obtain ⟨begun, hwrite, hbegun⟩ :=
    exists_writeFile [] hentry hplace (takesFile_of_vacant hcopy.vacant)
  obtain ⟨copied, happend, hcopied⟩ := exists_appendAll (h := h.withTree begun) hentry
    (hbegun.locate hplace) hbegun.self (chunking.chunks content)
  rw [List.nil_append, chunking.flatten_chunks] at hcopied
  have hfilled := hbegun.again hcopied
  obtain ⟨tree, hmove, hfills⟩ :=
    exists_rename hfilled hcopy.vacant hplace hcopy.locate_target hcopy.takes
  refine ⟨tree, ?_, hfills⟩
  rw [copyThrough, Attempt.on_bind_of_ok (on_requireAskable_of_askable (askable_of_readFile hread)),
    Attempt.on_bind_of_ok (on_requireAskable_of_askable hcopy.usable_temporary.askable),
    Attempt.on_bind_of_ok (Attempt.on_read_eq_ok_iff.mpr ⟨hread, rfl⟩),
    Attempt.on_bind_of_ok (Attempt.on_write_eq_ok_iff.mpr ⟨begun, hwrite, rfl⟩),
    Attempt.on_bind_of_ok happend]
  exact Attempt.on_move_eq_ok_iff.mpr ⟨tree, hmove, rfl⟩

end Copyable

theorem exists_replace (chunking : Chunking)
    (hcopy : Copyable h (temporaryPath target name) target parent)
    (hensure : (Directories.ensure target.parent).on before = (.ok (), h))
    (hread : h.tree.readFile h.directory source = .ok content) :
    ∃ tree, (replace chunking name source target).on before = (.ok (), h.withTree tree) ∧
      h.tree.Fills (parent ++ [target.name]) content tree := by
  obtain ⟨tree, hcopied, hfills⟩ := hcopy.exists_copyThrough chunking hread
  have hgone : tree.get? (parent ++ [(temporaryPath target name).name]) = none := by
    rw [hfills.other (by simpa using temporaryPath_ne target name), hcopy.vacant]
  have hplace := hfills.locate hcopy.locate_temporary
  have hmissing := find_missing (locate_followed hplace (by simp [hgone])) hgone
  refine ⟨tree, ?_, hfills⟩
  rw [replace, Attempt.on_bind_of_ok hensure]
  dsimp only
  rw [Attempt.on_bind_of_ok (Attempt.on_outcome_eq_ok_iff.mpr hcopied),
    Attempt.on_bind_of_ok (on_discard (h := h.withTree tree) hmissing)]
  rfl

theorem exists_removeIfPresent (hlocate : h.tree.locate false h.directory p = .ok place)
    (htakes : h.tree.TakesFile place) :
    ∃ after, (removeIfPresent p).on h = (.ok (), after) := by
  rw [removeIfPresent]
  cases hnode : h.tree.get? place with
  | none =>
      have hremove : (Attempt.removeFile p).on h = (.error ⟨.missing, p⟩, h) := by
        rw [Attempt.on_removeFile, removeFile, find_missing hlocate hnode]
        rfl
      rw [Attempt.on_bind_of_ok (Attempt.on_outcome_eq_ok_iff.mpr hremove)]
      exact ⟨h, rfl⟩
  | some node =>
      have hremove : (Attempt.removeFile p).on h = (.ok (), h.withTree (h.tree.erase place)) := by
        have hfile : node ≠ .directory := fun hdirectory =>
          htakes.not_directory (hdirectory ▸ hnode)
        rw [Attempt.on_removeFile, removeFile_of_node hlocate hnode hfile]
        rfl
      rw [Attempt.on_bind_of_ok (Attempt.on_outcome_eq_ok_iff.mpr hremove)]
      exact ⟨_, rfl⟩

/-- The directory of the output is there, its names can be used in it, and there is nothing under
them, but for files of earlier builds. -/
structure Free (h : Host) (names : CopyNames) (output : Path) (parent : Place) : Prop where
  found : h.tree.find true h.directory output.parent = .ok (parent, .directory)
  usable : ∀ p ∈ files names output, Usable p
  takes : ∀ p ∈ [output, output.withExtension ".pdb"], h.tree.TakesFile (parent ++ [p.name])
  vacant : ∀ p ∈ [temporaryPath output names.binary,
    temporaryPath (output.withExtension ".pdb") names.symbols], h.tree.get? (parent ++ [p.name]) = none

namespace Free

variable (hfree : Free h names output parent)

include hfree

theorem copyable_binary : Copyable h (temporaryPath output names.binary) output parent where
  found := hfree.found
  sibling := temporaryPath_parent _ _
  usable_temporary := hfree.usable _ (by simp [files])
  usable_target := hfree.usable _ (by simp [files])
  vacant := hfree.vacant (temporaryPath output names.binary) (by simp)
  takes := hfree.takes output (by simp)

theorem copyable_symbols :
    Copyable h (temporaryPath (output.withExtension ".pdb") names.symbols)
      (output.withExtension ".pdb") parent where
  found := by
    rw [Path.withExtension, Path.withName_parent]
    exact hfree.found
  sibling := temporaryPath_parent _ _
  usable_temporary := hfree.usable _ (by simp [files])
  usable_target := hfree.usable _ (by simp [files])
  vacant := hfree.vacant (temporaryPath (output.withExtension ".pdb") names.symbols) (by simp)
  takes := hfree.takes (output.withExtension ".pdb") (by simp)

theorem of_fills {tree : FileTree} (hfills : h.tree.Fills (parent ++ [output.name]) content tree) :
    Free (h.withTree tree) names output parent where
  found := hfills.find_directory hfree.found
  usable := hfree.usable
  takes := fun p hp => hfills.takesFile (hfree.takes p hp)
  vacant := by
    intro p hp
    rw [Host.withTree_tree, hfills.other, hfree.vacant p hp]
    intro hsame
    have hname : p.name = output.name := by simpa using hsame
    rcases List.mem_pair.mp hp with rfl | rfl
    · exact temporaryPath_ne output names.binary hname
    · exact symbols_temporary_ne output names.symbols hname

theorem exists_publish (hensure : (Directories.ensure output.parent).on before = (.ok (), h))
    (hbinary : h.tree.readFile h.directory binary = .ok content)
    (hsymbols : ∀ source, symbols = some source → ∃ place bytes runnable,
      h.tree.find true h.directory source = .ok (place, .file bytes runnable) ∧
        place ≠ parent ++ [output.name]) :
    ∃ published after, (publish chunking names binary output symbols).on before =
      (.ok (output, published), after) := by
  have hname : output.name ≠ [] := by
    intro hnil
    have hmark := (hfree.usable output (by simp [files])).entry.not_mark
    rw [hnil] at hmark
    exact absurd hmark (by decide)
  obtain ⟨tree, hreplace, hfills⟩ :=
    exists_replace chunking hfree.copyable_binary hensure hbinary
  have hstill := hfree.of_fills hfills
  have hsecond : ∃ published after, (publishSymbols chunking names.symbols
      (output.withExtension ".pdb") symbols).on (h.withTree tree) = (.ok published, after) := by
    cases symbols with
    | none =>
        obtain ⟨after, hremove⟩ := exists_removeIfPresent hstill.copyable_symbols.locate_target
          hstill.copyable_symbols.takes
        exact ⟨none, after, by rw [publishSymbols, Attempt.on_bind_of_ok hremove]; rfl⟩
    | some source =>
        obtain ⟨place, bytes, runnable, hfind, hne⟩ := hsymbols source rfl
        have hthere : (h.withTree tree).tree.isDirectory (h.withTree tree).directory
            (output.withExtension ".pdb").parent = true :=
          isDirectory_iff.mpr ⟨parent, hstill.copyable_symbols.found⟩
        obtain ⟨tree', hcopied, -⟩ := exists_replace chunking hstill.copyable_symbols
          (Directories.on_ensure_of_isDirectory hthere) (readFile_of_find (hfills.find hfind hne))
        exact ⟨some _, _, by rw [publishSymbols, Attempt.on_bind_of_ok hcopied]; rfl⟩
  obtain ⟨published, after, hsecond⟩ := hsecond
  refine ⟨published, after, ?_⟩
  rw [publish, if_neg hname, Attempt.on_rephrase_eq_ok_iff, Attempt.on_bind_of_ok hreplace]
  dsimp only
  rw [Attempt.on_bind_of_ok (Attempt.on_outcome_eq_ok_iff.mpr hsecond)]
  rfl

end Free

end ScriptWeave.Publication
