import ScriptWeave.Proofs.FileTree.Filling
import ScriptWeave.Proofs.FileTree.NullCharacters
import ScriptWeave.Proofs.Progress.Directories
import ScriptWeave.Proofs.WorkspacePaths

namespace ScriptWeave

namespace FileTree

variable {p : Path} {x : Text} {bytes more : Nat}

theorem joinWith_concat (separator x : Text) {parts : List Text} (hparts : parts ≠ []) :
    Text.joinWith separator (parts ++ [x]) = Text.joinWith separator parts ++ separator ++ x := by
  induction parts with
  | nil => exact absurd rfl hparts
  | cons part parts ih =>
      by_cases hnil : parts = []
      · subst hnil
        rfl
      · rw [List.cons_append, Text.joinWith_cons_of_ne_nil _ _ (by simp), ih hnil,
          Text.joinWith_cons_of_ne_nil _ _ hnil]
        simp only [List.append_assoc]

theorem length_encode_append (t u : Text) :
    (Text.encode (t ++ u)).length = (Text.encode t).length + (Text.encode u).length := by
  rw [Text.encode, List.flatMap_append, List.length_append]
  rfl

theorem length_toText_concat (p : Path) (x : Text) :
    (Text.encode (Path.toText ⟨p.anchor, p.names ++ [x]⟩)).length ≤
      (Text.encode p.toText).length + 1 + (Text.encode x).length := by
  rw [toText_eq (by simp), length_encode_append]
  by_cases hnames : p.names = []
  · have hanchor : (Text.encode (Path.anchorText p.anchor)).length ≤ (Text.encode p.toText).length := by
      by_cases hdot : p.anchor = .relative ∧ p.names = []
      · rw [hdot.1]
        exact Nat.zero_le _
      · rw [toText_eq hdot, length_encode_append]
        omega
    rw [hnames, List.nil_append, Text.joinWith_singleton]
    dsimp only
    omega
  · have hslash : (Text.encode ['/']).length = 1 := by decide
    rw [joinWith_concat _ _ hnames, length_encode_append, length_encode_append,
      toText_eq (by simp [hnames]), length_encode_append]
    dsimp only
    omega

structure Room (p : Path) (bytes : Nat) : Prop where
  no_null : p.NullFree
  length_lt : (Text.encode p.toText).length + bytes < pathLimit

theorem Room.mono (h : Room p more) (hle : bytes ≤ more) : Room p bytes :=
  ⟨h.no_null, Nat.lt_of_le_of_lt (Nat.add_le_add_left hle _) h.length_lt⟩

theorem Room.askable (h : Room p bytes) : Askable p where
  no_null := h.no_null
  not_long := by
    rw [isTooLong, decide_eq_false_iff_not, Nat.not_le]
    exact Nat.lt_of_le_of_lt (Nat.le_add_right _ _) h.length_lt

theorem Room.concat (h : Room p (nameLimit + 1 + bytes)) (hx : (Text.encode x).length ≤ nameLimit)
    (hnull : '\x00' ∉ x) : Room ⟨p.anchor, p.names ++ [x]⟩ bytes where
  no_null := by
    rw [Path.nullFree_iff]
    intro name hname
    rcases List.mem_append.mp hname with hname | hname
    · exact Path.nullFree_iff.mp h.no_null name hname
    · rwa [List.mem_singleton.mp hname]
  length_lt := by
    have hlength := length_toText_concat p x
    have hlimit := h.length_lt
    omega

theorem Room.usable (h : Room p (nameLimit + 1)) (hx : IsEntry x) (hnull : '\x00' ∉ x) :
    Usable ⟨p.anchor, p.names ++ [x]⟩ where
  entry := by rwa [Path.name_concat]
  askable := (h.concat hx.length_le hnull : Room _ 0).askable

end FileTree

namespace Workspace

open FileTree

variable {w : Workspace} {h h' emptied : Host} {session place : Place} {name : Text}

def bare (w : Workspace) : Workspace := { w with project := [] }

theorem Plain.bare (hplain : w.Plain) : w.bare.Plain :=
  ⟨hplain.session_entry, hplain.session_whole, by simp [Workspace.bare]⟩

theorem bare_path (hplain : w.Plain) : w.bare.path = w.root := by
  rw [hplain.bare.path_of_mark rfl, hplain.bare.root_eq, hplain.root_eq]
  rfl

/-- The directory of the project has been made in the emptied session directory, or is that
directory. -/
structure Entered (w : Workspace) (emptied entered : Host) (session place : Place) : Prop where
  sound : entered.Sound
  directory : entered.directory = emptied.directory
  found : entered.tree.find true entered.directory w.path = .ok (place, .directory)
  inside : session <+: place
  empty : ∀ q, place <+: q → q ≠ place → entered.tree.get? q = none
  same : ∀ q, ¬ session <+: q → entered.tree.get? q = emptied.tree.get? q

theorem entered_of_put {entered : Host} (hsound : emptied.Sound)
    (hsession : emptied.tree.get? session = some .directory)
    (hempty : ∀ q, session <+: q → q ≠ session → emptied.tree.get? q = none)
    (hplace : emptied.tree.locate false emptied.directory w.path = .ok (session ++ [w.project]))
    (htree : entered.tree = emptied.tree.put (session ++ [w.project]) .directory)
    (hdirectory : entered.directory = emptied.directory) :
    w.Entered emptied entered session (session ++ [w.project]) := by
  have hbelow : session <+: session ++ [w.project] := List.prefix_append _ _
  have hvacant : emptied.tree.get? (session ++ [w.project]) = none := hempty _ hbelow (by simp)
  have hrooted : (emptied.tree.put (session ++ [w.project]) .directory).Rooted := by
    refine hsound.rooted.put (by simp [hvacant]) ?_
    rw [List.dropLast_concat, hsession]
  refine ⟨⟨htree ▸ hrooted, ?_⟩, hdirectory, ?_, hbelow, fun q hq hne => ?_, fun q hq => ?_⟩
  · rw [htree, hdirectory]
    exact extends_put .directory hvacant _ _ hsound.standing
  · rw [htree, hdirectory]
    exact find_followed (find_put_directory hplace hvacant)
  · rw [htree, get?_put_of_ne _ _ hne]
    refine hempty q (hbelow.trans hq) ?_
    rintro rfl
    exact hne (hbelow.eq_of_length_le hq.length_le)
  · rw [htree, get?_put_of_ne]
    rintro rfl
    exact hq hbelow

theorem on_enter_of_halves {cleared made : Host} (hclear : w.clear.on h = (.ok (), cleared))
    (hnew : (Directories.makeNew w.path).on cleared = (.ok (), made)) :
    ∃ entered, w.enter.on h = (.ok (), entered) ∧ entered.tree = made.tree ∧
      entered.directory = made.directory := by
  have hmade : (Attempt.rephrase (ArtifactFault.workspace w.path) do
      w.clear
      Directories.makeNew w.path).on h = (.ok (), made) :=
    Attempt.on_rephrase_eq_ok_iff.mpr (Attempt.on_bind_eq_ok_iff.mpr ⟨(), cleared, hclear, hnew⟩)
  let record : LogRecord := ⟨.debug, logSource, "workspace " ++ w.path.toText⟩
  refine ⟨{ made with log := record :: made.log }, ?_, rfl, rfl⟩
  rw [enter, Attempt.on_bind_of_ok hmade, Attempt.on_lift]
  rfl

section Enter

variable (hplain : w.Plain) (hsound : h.Sound)
  (hcache : h.tree.isDirectory h.directory w.cacheRoot = true) (hsound' : emptied.Sound)
  (hbare : w.bare.enter.on h = (.ok (), emptied))
  (hfound : emptied.tree.find true emptied.directory w.root = .ok (session, .directory))

include hplain hsound hcache hbare hfound

theorem empty_of_bare :
    emptied.directory = h.directory ∧
      ∀ q, session <+: q → q ≠ session → emptied.tree.get? q = none := by
  obtain ⟨session', place, hopened⟩ := opened_of_enter hplain.bare hsound hcache hbare
  have hplace := hopened.found
  rw [bare_path hplain, ← hopened.directory, hfound, Except.ok.injEq, Prod.mk.injEq] at hplace
  exact ⟨hopened.directory, hplace.1 ▸ hopened.empty⟩

include hsound'

theorem exists_enter_of_mark (hmark : isMark w.project = true) :
    ∃ entered, w.enter.on h = (.ok (), entered) ∧ w.Entered emptied entered session session := by
  obtain ⟨hdirectory, hempty⟩ := empty_of_bare hplain hsound hcache hbare hfound
  have hpath := hplain.path_of_mark hmark
  have hsame : w.bare.enter = w.enter := by
    rw [enter, enter, bare_path hplain, hpath]
    rfl
  refine ⟨emptied, hsame ▸ hbare, hsound', rfl, ?_, List.prefix_refl _, hempty, fun _ _ => rfl⟩
  rw [hpath, hfound]

theorem exists_enter_of_entry (hproject : IsEntry w.project) (haskable : Askable w.path) :
    ∃ entered, w.enter.on h = (.ok (), entered) ∧
      w.Entered emptied entered session (session ++ [w.project]) := by
  obtain ⟨hdirectory, hempty⟩ := empty_of_bare hplain hsound hcache hbare hfound
  obtain ⟨cleared, made, hclear, hnew, htree, hmade⟩ := on_enter_cases hbare
  rw [bare_path hplain] at hnew
  have hpath := hplain.path_of_entry hproject.toNamesEntry
  have hname : w.path.name = w.project := by rw [hpath, Path.name_concat]
  have hparent : w.path.parent = w.root := by rw [hpath, Path.parent_concat]
  have hplace : emptied.tree.locate false emptied.directory w.path = .ok (session ++ [w.project]) :=
    hname ▸ locate_entry (hparent ▸ hfound) haskable (hname ▸ hproject)
  have hvacant : emptied.tree.get? (session ++ [w.project]) = none :=
    hempty _ (List.prefix_append _ _) (by simp)
  have hchild : (Directories.makeNew w.path).on cleared =
      (.ok (), made.withTree (made.tree.put (session ++ [w.project]) .directory)) := by
    rw [← htree, ← hmade] at hplace
    rw [← htree] at hvacant
    rw [hpath] at haskable hplace ⊢
    rw [Directories.on_makeNew_child hplain.root_entry haskable hnew]
    exact Attempt.on_makeDirectory_eq_ok_iff.mpr
      ⟨_, makeDirectory_eq_ok_iff.mpr ⟨_, hplace, hvacant, rfl⟩, rfl⟩
  obtain ⟨entered, henter, htree', hdirectory'⟩ := on_enter_of_halves (w := w) hclear hchild
  refine ⟨entered, henter, entered_of_put hsound' (find_eq_ok_iff.mp hfound).2 hempty hplace ?_
    (hdirectory'.trans hmade)⟩
  rw [htree', Host.withTree_tree, htree]

end Enter

theorem not_up_of_enter (hplain : w.Plain) (hsound : h.Sound)
    (hcache : h.tree.isDirectory h.directory w.cacheRoot = true)
    (hon : w.enter.on h = (.ok (), h')) : w.project ≠ "..".toList := by
  intro hup
  obtain ⟨session, place, hopened⟩ := opened_of_enter hplain hsound hcache hon
  have hmark : isMark w.project ≠ true := by
    rw [hup]
    decide
  have hplace := (find_eq_ok_iff.mp hopened.found).1
  rw [hplain.path_of_not_mark hmark, hup, ← hopened.directory] at hplace
  have hinside := hopened.inside
  rw [locate_up (find_followed hopened.root_found) hplace] at hinside
  exact not_prefix_dropLast hopened.ready.ne_nil hinside

theorem binaryPath_name (hplain : w.Plain) : w.binaryPath.name = w.project ++ ".dll" := by
  rw [binaryPath_eq hplain, Path.name_concat]

theorem symbolsPath_name (hplain : w.Plain) (hproject : w.project ≠ []) :
    w.symbolsPath.name = w.project ++ ".pdb" := by
  rw [symbolsPath_eq hplain hproject, Path.name_concat]

theorem length_le_of_write {symbols : Option Bytes} {binary : Bytes} {paths : Path × Option Path}
    (hplain : w.Plain) (hon : (w.write binary symbols).on h = (.ok paths, h')) :
    (Text.encode (w.project ++ ".dll")).length ≤ nameLimit := by
  unfold write at hon
  rw [Attempt.on_rephrase_eq_ok_iff] at hon
  obtain ⟨_, _, hbinary, -⟩ := Attempt.on_bind_eq_ok_iff.mp hon
  obtain ⟨tree, hwrite, -⟩ := Attempt.on_write_eq_ok_iff.mp hbinary
  have hentry := namesEntry_binaryPath hplain
  obtain ⟨q, hlocate⟩ := locate_of_modifyFile hentry hwrite
  rw [← binaryPath_name hplain]
  exact (isEntry_of_locate hlocate hentry).length_le

theorem exists_write (hplain : w.Plain) (hproject : w.project ≠ []) (hsound : h.Sound)
    (hfound : h.tree.find true h.directory w.path = .ok (place, .directory))
    (husable : Usable w.binaryPath) (husable' : Usable w.symbolsPath)
    (htakes : h.tree.TakesFile (place ++ [w.project ++ ".dll"]))
    (htakes' : h.tree.TakesFile (place ++ [w.project ++ ".pdb"])) (binary : Bytes)
    (symbols : Option Bytes) :
    ∃ written, (w.write binary symbols).on h =
        (.ok (w.binaryPath, symbols.map fun _ => w.symbolsPath), written) ∧
      written.Sound ∧ written.directory = h.directory ∧
      (∀ q, ¬ place <+: q → written.tree.get? q = h.tree.get? q) ∧
      written.tree.readFile written.directory w.binaryPath = .ok binary ∧
      ∀ bytes, symbols = some bytes → ∃ runnable,
        written.tree.find true written.directory w.symbolsPath =
          .ok (place ++ [w.project ++ ".pdb"], .file bytes runnable) := by
  have hbelow : ∀ {q : Place} {x : Text}, ¬ place <+: q → q ≠ place ++ [x] := by
    rintro q x hq rfl
    exact hq (List.prefix_append _ _)
  rw [← binaryPath_name hplain] at htakes
  rw [← symbolsPath_name hplain hproject] at htakes' ⊢
  have hparent : h.tree.find true h.directory w.binaryPath.parent = .ok (place, .directory) :=
    binaryPath_parent hplain ▸ hfound
  obtain ⟨tree, hfirst, hsound', hfills⟩ := exists_on_write binary hsound husable hparent htakes
  obtain ⟨runnable, hfile⟩ := hfills.find_file true (husable.locate hparent)
  cases symbols with
  | none =>
      refine ⟨h.withTree tree, ?_, hsound', rfl, fun q hq => hfills.other (hbelow hq),
        readFile_of_find hfile, by simp⟩
      rw [write, Attempt.on_rephrase_eq_ok_iff, Attempt.on_bind_of_ok hfirst]
      rfl
  | some bytes =>
      have hparent' : tree.find true h.directory w.symbolsPath.parent = .ok (place, .directory) :=
        symbolsPath_parent hplain ▸ hfills.find_directory hfound
      obtain ⟨tree', hsecond, hsound'', hfills'⟩ := exists_on_write bytes hsound' husable' hparent'
        (hfills.takesFile htakes')
      have hne : place ++ [w.binaryPath.name] ≠ place ++ [w.symbolsPath.name] := by
        simp [binaryPath_name hplain, symbolsPath_name hplain hproject]
      refine ⟨h.withTree tree', ?_, hsound'', rfl, fun q hq => ?_,
        readFile_of_find (hfills'.find hfile hne), fun _ hbytes => ?_⟩
      · rw [write, Attempt.on_rephrase_eq_ok_iff, Attempt.on_bind_of_ok hfirst,
          Attempt.on_bind_of_ok hsecond]
        rfl
      · exact (hfills'.other (hbelow hq)).trans (hfills.other (hbelow hq))
      · obtain rfl := Option.some.inj hbytes
        exact hfills'.find_file true (husable'.locate hparent')

end Workspace

end ScriptWeave
