import ScriptWeave.Publication
import ScriptWeave.Proofs.Directories

/-!
What a publication leaves behind. A copy changes nothing but its target, where it puts the bytes of
its source. So the binary and the symbols are both there in the end if they have places of their
own and neither is on the way to the other. Where the output has the extension of the symbols they
have one place, and what comes second undoes what came first.
-/

namespace ScriptWeave

namespace Path

variable {p : Path}

@[simp] theorem withName_name (p : Path) (name : Text) : (p.withName name).name = name := by
  simp [withName, Path.name]

@[simp] theorem withName_parent (p : Path) (name : Text) : (p.withName name).parent = p.parent := by
  simp [withName, parent]

theorem withName_self (hp : FileTree.NamesEntry p.name) : p.withName p.name = p := by
  rw [withName, ← FileTree.names_of_namesEntry hp]

theorem withExtension_name_ne {extension : Text} (hp : FileTree.NamesEntry p.name)
    (h : p.withExtension extension ≠ p) : (p.withExtension extension).name ≠ p.name := by
  intro hname
  rw [withExtension, withName_name] at hname
  rw [withExtension, hname, withName_self hp] at h
  exact h rfl

theorem cutExtension_append {stem : Text} (extension : Text) (hstem : stem ≠ [])
    (hextension : extension ≠ []) (hdot : ∀ c ∈ extension, c ≠ '.') :
    cutExtension (stem ++ '.' :: extension) = (stem, '.' :: extension) := by
  have hreverse : (stem ++ '.' :: extension).reverse =
      extension.reverse ++ '.' :: stem.reverse := by simp
  have hdots : ∀ c ∈ extension.reverse, decide (c ≠ '.') = true := by
    intro c hc
    exact decide_eq_true (hdot c (List.mem_reverse.mp hc))
  rw [cutExtension, hreverse, List.takeWhile_append_of_pos hdots, List.dropWhile_append_of_pos hdots]
  simp [hextension]

end Path

/-- The path leads to a file with exactly these bytes. -/
def Host.Holds (h : Host) (p : Path) (content : Bytes) : Prop :=
  ∃ place runnable, h.tree.find true h.directory p = .ok (place, .file content runnable)

theorem Host.Holds.unique {h : Host} {p : Path} {content content' : Bytes}
    (hholds : h.Holds p content) (hholds' : h.Holds p content') : content = content' := by
  obtain ⟨_, _, hfind⟩ := hholds
  obtain ⟨_, _, hfind'⟩ := hholds'
  simp only [hfind, Except.ok.injEq, Prod.mk.injEq, Node.file.injEq] at hfind'
  exact hfind'.2.1

namespace Publication

open FileTree

variable {base : FileTree} {parent place : Place} {before h h' : Host}
variable {source temporary target p : Path} {chunking : Chunking} {name : Text}

theorem on_requireAskable (hon : (requireAskable p).on h = (.ok (), h')) : h = h' := by
  rw [requireAskable] at hon
  split at hon
  · simp [Attempt.on_throw] at hon
  · exact (Prod.mk.inj hon).2

theorem on_appendAll {chunks : List Bytes} {content : Bytes} {runnable : Bool}
    (hextends : base.Extends h.tree) (hvacant : base.get? place = none)
    (hlocate : base.locate false h.directory p = .ok place) (hp : NamesEntry p.name)
    (hnode : h.tree.get? place = some (.file content runnable))
    (hon : (appendAll p chunks).on h = (.ok (), h')) :
    ∃ tree, h' = h.withTree tree ∧
      h.tree.Updates place (some (.file (content ++ chunks.flatten) runnable)) tree := by
  induction chunks generalizing h content with
  | nil =>
      obtain ⟨-, rfl⟩ := Prod.mk.inj hon
      exact ⟨h.tree, rfl, updates_same (by simp [hnode])⟩
  | cons chunk chunks ih =>
      rw [appendAll, Attempt.on_bind_eq_ok_iff] at hon
      obtain ⟨_, between, happend, hmore⟩ := hon
      obtain ⟨tree, htree, rfl⟩ := Attempt.on_append_eq_ok_iff.mp happend
      have hfollowed := locate_followed (locate_of_extends hlocate hextends) (by simp [hnode])
      rw [appendFile, modifyFile_of_file hp hfollowed hnode, Except.ok.injEq] at htree
      have hput := updates_put h.tree (.file (content ++ chunk) runnable) (ne_nil_of_vacant hvacant)
      rw [htree] at hput
      obtain ⟨tree', rfl, hupdates⟩ := ih (h := h.withTree tree) (hput.extends hextends hvacant) hlocate hput.self hmore
      refine ⟨tree', rfl, ?_⟩
      rw [List.flatten_cons, ← List.append_assoc]
      exact hput.again hupdates

theorem on_write_vacant {content : Bytes} (hextends : base.Extends h.tree)
    (hparent : base.find true h.directory p.parent = .ok (parent, .directory))
    (hp : NamesEntry p.name) (hvacant : h.tree.get? (parent ++ [p.name]) = none)
    (hon : (Attempt.write p content).on h = (.ok (), h')) :
    base.locate false h.directory p = .ok (parent ++ [p.name]) ∧ ∃ tree, h' = h.withTree tree ∧
      h.tree.Updates (parent ++ [p.name]) (some (.file content false)) tree := by
  obtain ⟨tree, hwritten, rfl⟩ := Attempt.on_write_eq_ok_iff.mp hon
  have hlocate : base.locate false h.directory p = .ok (parent ++ [p.name]) := by
    obtain ⟨q, hlocated⟩ := locate_of_modifyFile hp hwritten
    exact locate_entry_of_locate hparent hp hlocated
  have hfollowed := locate_followed (locate_of_extends hlocate hextends) (by simp [hvacant])
  rw [writeFile, modifyFile_of_vacant hp hfollowed hvacant, Except.ok.injEq] at hwritten
  exact ⟨hlocate, tree, rfl, hwritten ▸ updates_put h.tree _ (ne_nil_of_vacant hvacant)⟩

theorem on_move_file {content : Bytes} {runnable : Bool} (hextends : base.Extends h.tree)
    (hparent : base.find true h.directory target.parent = .ok (parent, .directory))
    (htarget : NamesEntry target.name)
    (hsource : h.tree.find false h.directory source = .ok (place, .file content runnable))
    (hon : (Attempt.move source target).on h = (.ok (), h')) :
    base.locate false h.directory target = .ok (parent ++ [target.name]) ∧
      h' = h.withTree ((h.tree.erase place).put (parent ++ [target.name])
        (.file content runnable)) := by
  obtain ⟨tree, hmoved, rfl⟩ := Attempt.on_move_eq_ok_iff.mp hon
  have hlocate : base.locate false h.directory target = .ok (parent ++ [target.name]) := by
    obtain ⟨q, hlocated⟩ := locate_of_rename hmoved
    exact locate_entry_of_locate hparent htarget hlocated
  rw [rename_file hsource (locate_of_extends hlocate hextends) hmoved]
  exact ⟨hlocate, rfl⟩

theorem on_copyThrough (hextends : base.Extends h.tree)
    (hparent : base.find true h.directory target.parent = .ok (parent, .directory))
    (hsibling : temporary.parent = target.parent)
    (htemporary : NamesEntry temporary.name) (htarget : NamesEntry target.name)
    (hvacant : h.tree.get? (parent ++ [temporary.name]) = none)
    (hon : (copyThrough chunking source temporary target).on h = (.ok (), h')) :
    ∃ content tree, h.tree.readFile h.directory source = .ok content ∧ h' = h.withTree tree ∧
      h.tree.Updates (parent ++ [target.name]) (some (.file content false)) tree ∧
      base.locate false h.directory target = .ok (parent ++ [target.name]) ∧
      base.locate false h.directory temporary = .ok (parent ++ [temporary.name]) := by
  -- What is extended on the way is `base`, which lacks the temporary file and so loses nothing.
  have hbase : base.get? (parent ++ [temporary.name]) = none := by
    rw [Option.eq_none_iff_forall_ne_some]
    intro node hnode
    simp [hextends _ _ hnode] at hvacant
  simp only [copyThrough, Attempt.on_bind_eq_ok_iff] at hon
  obtain ⟨_, _, hsource, _, _, haskable, content, _, hcontent, _, _, hwrite, _, _, happend, hmove⟩ :=
    hon
  obtain rfl := on_requireAskable hsource
  obtain rfl := on_requireAskable haskable
  obtain ⟨hread, rfl⟩ := Attempt.on_read_eq_ok_iff.mp hcontent
  obtain ⟨hlocate, written, rfl, hwritten⟩ :=
    on_write_vacant hextends (hsibling ▸ hparent) htemporary hvacant hwrite
  obtain ⟨copied, rfl, hcopied⟩ := on_appendAll (h := h.withTree written)
    (hwritten.extends hextends hbase) hbase hlocate htemporary hwritten.self happend
  rw [List.nil_append, chunking.flatten_chunks] at hcopied
  have hboth := hwritten.again hcopied
  have hgrown := hboth.extends hextends hbase
  have hfound := find_eq_ok_iff.mpr ⟨locate_of_extends hlocate hgrown, hboth.self⟩
  obtain ⟨hplace, rfl⟩ := on_move_file (h := h.withTree copied) hgrown hparent htarget hfound hmove
  exact ⟨content, _, hread, rfl, hboth.moved hvacant (by simp) _, hplace, hlocate⟩

theorem on_discard (hmissing : h.tree.find true h.directory p = .error .missing) :
    (discard p).on h = (.ok (), h) := by
  rw [discard, Attempt.on_bind, Attempt.on_isPresent, exists?, hmissing]
  rfl

theorem temporaryPath_name (target : Path) (name : Text) :
    (temporaryPath target name).name = "." ++ target.name ++ "." ++ name ++ ".tmp" :=
  Path.withName_name _ _

@[simp] theorem temporaryPath_parent (target : Path) (name : Text) :
    (temporaryPath target name).parent = target.parent :=
  Path.withName_parent _ _

theorem namesEntry_temporaryPath (target : Path) (name : Text) :
    NamesEntry (temporaryPath target name).name :=
  namesEntry_of_length (by simp [temporaryPath_name]; omega)

theorem temporaryPath_ne (target : Path) (name : Text) :
    (temporaryPath target name).name ≠ target.name := by
  intro h
  have hlength := congrArg List.length h
  simp [temporaryPath_name] at hlength
  omega

/-- The host on which the directory of a target has been made, as far as that was possible. -/
def prepared (h : Host) (target : Path) : Host := ((Directories.ensure target.parent).on h).2

theorem on_replace (hextends : base.Extends h.tree)
    (hparent : base.find true h.directory target.parent = .ok (parent, .directory))
    (htarget : NamesEntry target.name) (hfree : base.get? (parent ++ [target.name]) = none)
    (hvacant : h.tree.get? (parent ++ [(temporaryPath target name).name]) = none)
    (hready : (Directories.ensure target.parent).on before = (.ok (), h))
    (hon : (replace chunking name source target).on before = (.ok (), h')) :
    ∃ content tree, h.tree.readFile h.directory source = .ok content ∧ h' = h.withTree tree ∧
      h.tree.Updates (parent ++ [target.name]) (some (.file content false)) tree ∧
      base.locate false h.directory target = .ok (parent ++ [target.name]) := by
  simp only [replace, Attempt.on_bind_eq_ok_iff, Attempt.on_outcome_eq_ok_iff,
    Attempt.on_ofOutcome_eq_ok_iff, hready] at hon
  obtain ⟨_, _, hsame, _, after, hcopy, _, _, hdiscard, rfl, rfl⟩ := hon
  obtain ⟨-, rfl⟩ := Prod.mk.inj hsame
  obtain ⟨content, tree, hread, rfl, hupdates, hplace, htemporary⟩ :=
    on_copyThrough hextends hparent (temporaryPath_parent target name)
      (namesEntry_temporaryPath target name) htarget hvacant hcopy
  refine ⟨content, tree, hread, ?_, hupdates, hplace⟩
  have hgone : tree.get? (parent ++ [(temporaryPath target name).name]) = none := by
    rw [hupdates.other (by simpa using temporaryPath_ne target name), hvacant]
  have hlocate := locate_of_extends htemporary (hupdates.extends hextends hfree)
  have hmissing := find_missing (locate_followed hlocate (by simp [hgone])) hgone
  rw [on_discard hmissing] at hdiscard
  exact (Prod.mk.inj hdiscard).2.symm

theorem ensure_of_on_replace (hon : (replace chunking name source target).on h = (.ok (), h')) :
    (Directories.ensure target.parent).on h = (.ok (), prepared h target) := by
  rw [replace, Attempt.on_bind_eq_ok_iff] at hon
  obtain ⟨_, between, hready, -⟩ := hon
  rw [prepared, hready]

theorem on_removeIfPresent (hon : (removeIfPresent p).on h = (.ok (), h')) :
    (h.tree.find false h.directory p = .error .missing ∧ h = h') ∨
      ∃ place node, h.tree.find false h.directory p = .ok (place, node) ∧
        h' = h.withTree (h.tree.erase place) := by
  simp only [removeIfPresent, Attempt.on_bind_eq_ok_iff, Attempt.on_outcome_eq_ok_iff,
    Attempt.on_removeFile] at hon
  obtain ⟨result, after, hremove, hresult⟩ := hon
  cases hremoved : h.tree.removeFile h.directory p with
  | error cause =>
      rw [hremoved] at hremove
      obtain ⟨rfl, rfl⟩ := Prod.mk.inj hremove
      cases cause with
      | missing => exact .inl ⟨find_of_removeFile_missing hremoved, (Prod.mk.inj hresult).2⟩
      | _ => simp [Attempt.on_ofOutcome_eq_ok_iff] at hresult
  | ok tree =>
      rw [hremoved] at hremove
      obtain ⟨rfl, rfl⟩ := Prod.mk.inj hremove
      obtain ⟨place, node, hfind, rfl⟩ := find_of_removeFile hremoved
      exact .inr ⟨place, node, hfind, (Attempt.on_ofOutcome_eq_ok_iff.mp hresult).2.symm⟩

/-! ### Publishing -/

theorem on_publish {names : CopyNames} {binary output : Path} {symbols : Option Path}
    {published : Path × Option Path}
    (hon : (publish chunking names binary output symbols).on h = (.ok published, h')) :
    published.1 = output ∧ ∃ between,
      (replace chunking names.binary binary output).on h = (.ok (), between) ∧
      (publishSymbols chunking names.symbols (output.withExtension ".pdb") symbols).on between =
        (.ok published.2, h') := by
  rw [publish] at hon
  split at hon
  · simp [Attempt.on_throw] at hon
  · simp only [Attempt.on_rephrase_eq_ok_iff, Attempt.on_bind_eq_ok_iff,
      Attempt.on_outcome_eq_ok_iff] at hon
    obtain ⟨_, between, hreplace, result, after, hsymbols, hresult⟩ := hon
    cases result with
    | error e =>
        dsimp only at hresult
        split at hresult
        · simp [Attempt.on_throw] at hresult
        · obtain ⟨_, _, -, hthrow⟩ := Attempt.on_bind_eq_ok_iff.mp hresult
          simp [Attempt.on_throw] at hthrow
    | ok siblings =>
        simp [Attempt.on_pure] at hresult
        obtain ⟨rfl, rfl⟩ := hresult
        exact ⟨rfl, between, hreplace, hsymbols⟩

theorem on_publishSymbols_none {result : Option Path} (hextends : base.Extends h.tree)
    (hparent : base.find true h.directory target.parent = .ok (parent, .directory))
    (htarget : NamesEntry target.name) (hfree : base.get? (parent ++ [target.name]) = none)
    (hon : (publishSymbols chunking name target none).on h = (.ok result, h')) :
    result = none ∧ h'.directory = h.directory ∧
      (∃ n, h.tree.Updates (parent ++ [target.name]) n h'.tree) ∧
      h'.tree.find false h.directory target = .error .missing := by
  obtain ⟨_, _, hremove, hpure⟩ := Attempt.on_bind_eq_ok_iff.mp hon
  obtain ⟨hresult, rfl⟩ := Prod.mk.inj hpure
  refine ⟨(Except.ok.inj hresult).symm, ?_⟩
  obtain ⟨hmissing, rfl⟩ | ⟨place, node, hfind, rfl⟩ := on_removeIfPresent hremove
  · exact ⟨rfl, ⟨_, updates_same rfl⟩, hmissing⟩
  · obtain ⟨hlocated, -⟩ := find_eq_ok_iff.mp hfind
    have hlocate := locate_entry_of_locate hparent htarget hlocated
    obtain rfl : parent ++ [target.name] = place := by
      rw [locate_of_extends hlocate hextends] at hlocated
      exact Except.ok.inj hlocated
    have herased := updates_erase h.tree (p := parent ++ [target.name]) (by simp)
    refine ⟨rfl, ⟨none, herased⟩, ?_⟩
    exact find_missing (locate_of_extends hlocate (herased.extends hextends hfree)) herased.self

theorem on_publishSymbols_some {result : Option Path} (hextends : base.Extends h.tree)
    (hparent : base.find true h.directory target.parent = .ok (parent, .directory))
    (htarget : NamesEntry target.name) (hfree : base.get? (parent ++ [target.name]) = none)
    (hvacant : h.tree.get? (parent ++ [(temporaryPath target name).name]) = none)
    (hon : (publishSymbols chunking name target (some source)).on h = (.ok result, h')) :
    result = some target ∧ h'.directory = h.directory ∧ ∃ content,
      h.tree.readFile h.directory source = .ok content ∧
      h.tree.Updates (parent ++ [target.name]) (some (.file content false)) h'.tree ∧
      h'.tree.find true h.directory target =
        .ok (parent ++ [target.name], .file content false) := by
  obtain ⟨_, _, hreplace, hpure⟩ := Attempt.on_bind_eq_ok_iff.mp hon
  obtain ⟨hresult, rfl⟩ := Prod.mk.inj hpure
  -- The directory is there, so that making it changes nothing.
  have hready := Directories.on_ensure_of_isDirectory
    (isDirectory_iff.mpr ⟨parent, find_of_extends hparent hextends⟩)
  obtain ⟨content, tree, hread, rfl, hupdates, hlocate⟩ :=
    on_replace hextends hparent htarget hfree hvacant hready hreplace
  exact ⟨(Except.ok.inj hresult).symm, rfl, content, hread, hupdates,
    find_file hlocate (hupdates.extends hextends hfree) hupdates.self⟩

/-! ### What is delivered -/

def without (t : FileTree) (parent : Place) (output : Path) : FileTree :=
  (t.erase (parent ++ [output.name])).erase (parent ++ [(output.withExtension ".pdb").name])

theorem without_extends (t : FileTree) (parent : Place) (output : Path) :
    (without t parent output).Extends t :=
  (erase_extends _ _).trans (erase_extends _ _)

theorem get?_without_symbols (t : FileTree) (parent : Place) (output : Path) :
    (without t parent output).get? (parent ++ [(output.withExtension ".pdb").name]) = none :=
  get?_erase_self _ (by simp)

theorem get?_without_output (t : FileTree) (parent : Place) (output : Path) :
    (without t parent output).get? (parent ++ [output.name]) = none := by
  rw [without, updates_erase _ (by simp)]
  split
  · rfl
  · exact get?_erase_self _ (by simp)

/-- The steps of a publication do not get in each other's way: the directory is found without
what is published, the names drawn at random are not taken, and the symbols are not read through
the output. -/
structure Clear (h : Host) (names : CopyNames) (output : Path) (symbols : Option Path)
    (parent : Place) : Prop where
  entry : NamesEntry output.name
  way : (without h.tree parent output).find true h.directory output.parent =
    .ok (parent, .directory)
  vacant : h.tree.get? (parent ++ [(temporaryPath output names.binary).name]) = none
  symbols_vacant : symbols.isSome → h.tree.get?
    (parent ++ [(temporaryPath (output.withExtension ".pdb") names.symbols).name]) = none
  symbols_unread : ∀ source, symbols = some source →
    (h.tree.erase (parent ++ [output.name])).readFile h.directory source =
      h.tree.readFile h.directory source

/-- A publication finds its way clear when the directory of the output has been made. -/
def Undisturbed (h : Host) (names : CopyNames) (output : Path) (symbols : Option Path) : Prop :=
  ∀ parent, (prepared h output).tree.find true (prepared h output).directory output.parent =
      .ok (parent, .directory) → Clear (prepared h output) names output symbols parent

theorem undisturbed_of_clear {names : CopyNames} {output : Path} {symbols : Option Path}
    (hparent : (prepared h output).tree.find true (prepared h output).directory output.parent =
      .ok (parent, .directory))
    (hclear : Clear (prepared h output) names output symbols parent) :
    Undisturbed h names output symbols := by
  intro parent' hparent'
  rw [hparent, Except.ok.injEq, Prod.mk.injEq] at hparent'
  exact hparent'.1 ▸ hclear

theorem way_of_plain {t : FileTree} {directory : Place} {output : Path}
    (hparent : t.find true directory output.parent = .ok (parent, .directory))
    (houtput : (t.get? (parent ++ [output.name])).any Node.leadsOn = false)
    (hsymbols : (t.get? (parent ++ [(output.withExtension ".pdb").name])).any Node.leadsOn = false) :
    (without t parent output).find true directory output.parent = .ok (parent, .directory) := by
  have hways : ∀ p n, n.leadsOn = true → t.get? p = some n →
      (without t parent output).get? p = some n := by
    intro p n hleads hnode
    rw [without, get?_erase_of_ne, get?_erase_of_ne, hnode]
    · rintro rfl
      rw [hnode] at houtput
      simp [hleads] at houtput
    · rintro rfl
      rw [hnode] at hsymbols
      simp [hleads] at hsymbols
  obtain ⟨hlocate, hnode⟩ := find_eq_ok_iff.mp hparent
  obtain ⟨haskable, hwalks⟩ := locate_eq_ok_iff.mp hlocate
  refine find_eq_ok_iff.mpr ⟨locate_eq_ok_iff.mpr ⟨haskable, ?_⟩, hways _ _ rfl hnode⟩
  exact hwalks.of_ways hways fun _ target => without_extends t parent output _ _

/-- The target is a file, and it holds what the source held before, if that could be read. -/
def Copied (before after : Host) (source target : Path) : Prop :=
  ∃ content, after.Holds target content ∧
    ∀ bytes, before.tree.readFile before.directory source = .ok bytes → bytes = content

theorem Copied.holds {before after : Host} {source target : Path} {bytes : Bytes}
    (h : Copied before after source target)
    (hbytes : before.tree.readFile before.directory source = .ok bytes) :
    after.Holds target bytes := by
  obtain ⟨content, hholds, hsame⟩ := h
  exact hsame bytes hbytes ▸ hholds

/-- What is said to be published is there, and no symbols of an earlier build. -/
structure Delivers (before after : Host) (binary : Path) (symbols : Option Path)
    (published : Path × Option Path) : Prop where
  binary_copied : Copied before after binary published.1
  symbols_copied : ∀ source, symbols = some source →
    ∃ target, published.2 = some target ∧ Copied before after source target
  none_stale : symbols = none → published.2 = none ∧
    after.tree.find false after.directory (published.1.withExtension ".pdb") = .error .missing

section Delivery

variable {names : CopyNames} {binary output : Path} {symbols : Option Path}
variable {published : Path × Option Path}

theorem namesEntry_symbols (output : Path) : NamesEntry (output.withExtension ".pdb").name :=
  namesEntry_of_length (by simp [Path.withExtension])

theorem symbols_temporary_ne (output : Path) (name : Text) :
    (temporaryPath (output.withExtension ".pdb") name).name ≠ output.name := by
  intro h
  rw [temporaryPath_name, Path.withExtension, Path.withName_name] at h
  have hcut : Path.cutExtension output.name =
      (".".toList ++ (output.stem ++ ".pdb") ++ "." ++ name, ".tmp".toList) := by
    rw [← h]
    exact Path.cutExtension_append "tmp" (by simp) (by simp) (by simp)
  have hstem : output.stem = ".".toList ++ (output.stem ++ ".pdb") ++ "." ++ name :=
    congrArg Prod.fst hcut
  have hlength := congrArg List.length hstem
  simp at hlength
  omega

/-- The host between the two copies: the binary is there, and nothing else has changed since the
directory was made. -/
structure Halfway (h between : Host) (binary output : Path) (parent : Place) (content : Bytes) :
    Prop where
  grows : h.GrowsTo (prepared h output)
  directory : between.directory = h.directory
  read : (prepared h output).tree.readFile h.directory binary = .ok content
  updates : (prepared h output).tree.Updates (parent ++ [output.name]) (some (.file content false))
    between.tree
  located : (without (prepared h output).tree parent output).locate false h.directory output =
    .ok (parent ++ [output.name])

theorem halfway_of_publish (hundisturbed : Undisturbed h names output symbols)
    (hon : (publish chunking names binary output symbols).on h = (.ok published, h')) :
    published.1 = output ∧ ∃ parent between content,
      Clear (prepared h output) names output symbols parent ∧
      Halfway h between binary output parent content ∧
      (publishSymbols chunking names.symbols (output.withExtension ".pdb") symbols).on between =
        (.ok published.2, h') := by
  obtain ⟨hfirst, between, hreplace, hsymbols⟩ := on_publish hon
  have hready := ensure_of_on_replace hreplace
  obtain ⟨parent, hdirectory⟩ := isDirectory_iff.mp (Directories.isDirectory_of_on_ensure hready)
  have hclear := hundisturbed parent hdirectory
  have hgrows : h.GrowsTo (prepared h output) := Directories.on_ensure_grows h output.parent
  obtain ⟨content, tree, hread, rfl, hupdates, hlocate⟩ := on_replace (without_extends _ _ _)
    hclear.way hclear.entry (get?_without_output _ _ _) hclear.vacant hready hreplace
  rw [hgrows.directory] at hread hlocate
  exact ⟨hfirst, parent, (prepared h output).withTree tree, content, hclear,
    ⟨hgrows, hgrows.directory, hread, hupdates, hlocate⟩, hsymbols⟩

namespace Halfway

variable {between : Host} {content : Bytes}

theorem extends_without (hhalf : Halfway h between binary output parent content) :
    (without (prepared h output).tree parent output).Extends between.tree :=
  hhalf.updates.extends (without_extends _ _ _) (get?_without_output _ _ _)

theorem way (hhalf : Halfway h between binary output parent content)
    (hclear : Clear (prepared h output) names output symbols parent) :
    (without (prepared h output).tree parent output).find true between.directory
      (output.withExtension ".pdb").parent = .ok (parent, .directory) := by
  rw [Path.withExtension, Path.withName_parent, hhalf.directory, ← hhalf.grows.directory]
  exact hclear.way

theorem binary_copied (hhalf : Halfway h between binary output parent content) {n : Option Node}
    (hapart : parent ++ [output.name] ≠ parent ++ [(output.withExtension ".pdb").name])
    (hdirectory : h'.directory = between.directory)
    (hsecond : between.tree.Updates (parent ++ [(output.withExtension ".pdb").name]) n h'.tree) :
    Copied h h' binary output := by
  refine ⟨content, ⟨parent ++ [output.name], false, ?_⟩, fun bytes hbytes => ?_⟩
  · rw [hdirectory, hhalf.directory]
    refine find_file hhalf.located
      (hsecond.extends hhalf.extends_without (get?_without_symbols _ _ _)) ?_
    rw [hsecond.other hapart, hhalf.updates.self]
  · have hkept := readFile_of_extends hbytes hhalf.grows.tree
    rw [hhalf.read] at hkept
    exact (Except.ok.inj hkept).symm

theorem symbols_read (hhalf : Halfway h between binary output parent content)
    (hclear : Clear (prepared h output) names output symbols parent) {source : Path}
    (hsource : symbols = some source) {bytes : Bytes}
    (hbytes : h.tree.readFile h.directory source = .ok bytes) :
    between.tree.readFile between.directory source = .ok bytes := by
  have hprepared := readFile_of_extends hbytes hhalf.grows.tree
  rw [← hhalf.grows.directory, ← hclear.symbols_unread source hsource] at hprepared
  rw [hhalf.directory, ← hhalf.grows.directory]
  exact readFile_of_extends hprepared
    (hhalf.updates.extends (erase_extends _ _) (get?_erase_self _ (by simp)))

end Halfway

theorem second_half_of_publish (hundisturbed : Undisturbed h names output symbols)
    (hon : (publish chunking names binary output symbols).on h = (.ok published, h')) :
    published.1 = output ∧
      (output.withExtension ".pdb" ≠ output → Copied h h' binary output) ∧
      (∀ source, symbols = some source → published.2 = some (output.withExtension ".pdb") ∧
        Copied h h' source (output.withExtension ".pdb")) ∧
      (symbols = none → published.2 = none ∧
        h'.tree.find false h'.directory (output.withExtension ".pdb") = .error .missing) := by
  obtain ⟨hfirst, parent, between, content, hclear, hhalf, hsymbols⟩ :=
    halfway_of_publish hundisturbed hon
  have hapart : output.withExtension ".pdb" ≠ output →
      parent ++ [output.name] ≠ parent ++ [(output.withExtension ".pdb").name] := fun hne => by
    simpa using (Path.withExtension_name_ne hclear.entry hne).symm
  cases symbols with
  | none =>
      obtain ⟨hnone, hkept, ⟨n, hsecond⟩, hmissing⟩ := on_publishSymbols_none
        hhalf.extends_without (hhalf.way hclear) (namesEntry_symbols output)
        (get?_without_symbols _ _ _) hsymbols
      refine ⟨hfirst, fun hne => hhalf.binary_copied (hapart hne) hkept hsecond, by simp, fun _ => ?_⟩
      exact ⟨hnone, hkept ▸ hmissing⟩
  | some source =>
      -- The temporary name of the symbols was free before and is not that of the output.
      have hvacant : between.tree.get?
          (parent ++ [(temporaryPath (output.withExtension ".pdb") names.symbols).name]) = none := by
        rw [hhalf.updates.other (by simpa using symbols_temporary_ne output names.symbols)]
        exact hclear.symbols_vacant rfl
      obtain ⟨hsome, hkept, copy, hcopy, hsecond, hfound⟩ := on_publishSymbols_some
        hhalf.extends_without (hhalf.way hclear) (namesEntry_symbols output)
        (get?_without_symbols _ _ _) hvacant hsymbols
      refine ⟨hfirst, fun hne => hhalf.binary_copied (hapart hne) hkept hsecond,
        fun source' hsource => ?_, by simp⟩
      obtain rfl := Option.some.inj hsource
      refine ⟨hsome, copy, ⟨_, false, hkept.symm ▸ hfound⟩, fun bytes hbytes => ?_⟩
      have hread := hhalf.symbols_read hclear rfl hbytes
      rw [hcopy] at hread
      exact (Except.ok.inj hread).symm

theorem delivers_of_publish (hapart : output.withExtension ".pdb" ≠ output)
    (hundisturbed : Undisturbed h names output symbols)
    (hon : (publish chunking names binary output symbols).on h = (.ok published, h')) :
    Delivers h h' binary symbols published := by
  obtain ⟨hfirst, hbinary, hsymbols, hnone⟩ := second_half_of_publish hundisturbed hon
  rw [← hfirst] at hbinary hsymbols hnone hapart
  exact ⟨hbinary hapart, fun source hsource => ⟨_, hsymbols source hsource⟩, hnone⟩

/-- An output and symbols of earlier builds are where a new binary goes. -/
def staleHost : Host where
  tree := ⟨[(["in".toList], .directory),
    (["in".toList, "main.dll".toList], .file [77, 90] false),
    (["in".toList, "main.pdb".toList], .file [66, 83] false),
    (["out".toList], .directory),
    (["out".toList, "app.dll".toList], .file [77] false),
    (["out".toList, "app.pdb".toList], .file [66] false)]⟩

/-- Where the output has the extension of the symbols, a publication without symbols removes what
it has just published, and one with other symbols puts them in its place. -/
theorem not_delivers_of_publish (hsame : output.withExtension ".pdb" = output)
    (hother : ∀ source, symbols = some source →
      ∃ bytes bytes', h.tree.readFile h.directory binary = .ok bytes ∧
        h.tree.readFile h.directory source = .ok bytes' ∧ bytes ≠ bytes')
    (hundisturbed : Undisturbed h names output symbols)
    (hon : (publish chunking names binary output symbols).on h = (.ok published, h')) :
    ¬ Delivers h h' binary symbols published := by
  rintro ⟨hbinary, -, -⟩
  obtain ⟨hfirst, -, hsome, hnone⟩ := second_half_of_publish hundisturbed hon
  rw [hsame] at hsome hnone
  rw [hfirst] at hbinary
  cases hsymbols : symbols with
  | none =>
      obtain ⟨content, ⟨_, _, hfind⟩, -⟩ := hbinary
      obtain ⟨_, _, hfound⟩ := find_unfollowed hfind
      simp [hfound, hsymbols] at hnone
  | some source =>
      obtain ⟨bytes, bytes', hread, hread', hne⟩ := hother source hsymbols
      exact hne ((hbinary.holds hread).unique ((hsome source hsymbols).2.holds hread'))

example :
    ∃ after, (publish .whole ⟨"1a".toList, "2b".toList⟩ "/in/main.dll" "/out/app.pdb" none).on
        staleHost = (.ok ("/out/app.pdb", none), after) ∧
      ¬ Delivers staleHost after "/in/main.dll" none ("/out/app.pdb", none) := by
  have hparent : (prepared staleHost "/out/app.pdb").tree.find true
      (prepared staleHost "/out/app.pdb").directory (Path.parent "/out/app.pdb") =
        .ok (["out".toList], .directory) := by decide +kernel
  refine ⟨_, Attempt.on_eq (by decide +kernel), not_delivers_of_publish (by decide) (by simp)
    (undisturbed_of_clear hparent ?_) (Attempt.on_eq (by decide +kernel))⟩
  exact ⟨⟨by decide, by decide⟩, way_of_plain hparent (by decide +kernel) (by decide +kernel),
    by decide +kernel, by simp, by simp⟩

end Delivery

end Publication

end ScriptWeave
