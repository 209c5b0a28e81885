import ScriptWeave.Compiler
import ScriptWeave.Proofs.Progress.Publication
import ScriptWeave.Proofs.Progress.Workspace
import ScriptWeave.Proofs.Steadiness.Build
import ScriptWeave.Proofs.ToldFailures

namespace ScriptWeave

open FileTree

/-- On a host that differs from the given one at most in the session directory, the back end compiles
every document that it finds with room beside it for a scratch directory of another name. It changes
nothing but what is there. -/
def BackEnd.Delivers (backEnd : BackEnd) (before : Host) (session : Place) : Prop :=
  ∀ request h place scratch, request.Ready h place → session <+: place →
    h.directory = before.directory →
    (∀ q, ¬ session <+: q → h.tree.get? q = before.tree.get? q) →
    request.scratch = some scratch → scratch.parent = request.path.parent → Usable scratch →
    scratch.name ≠ request.path.name →
    ∃ emitted after, (backEnd request).on h = (.ok emitted, after) ∧ emitted.success = true ∧
      (∃ binary, emitted.binary = some binary) ∧
      (request.debug = true → ∃ symbols, emitted.symbols = some symbols) ∧ after.Sound ∧
      ∀ q, ¬ place ++ [scratch.name] <+: q → after.tree.get? q = h.tree.get? q

namespace EmitRequest.Ready

variable {request : EmitRequest} {h : Host} {place : Place} {t : FileTree} {x y : Text}

section Beside

variable (hready : request.Ready h place)
  (hkept : ∀ q, ¬ place ++ [x] <+: q → t.get? q = h.tree.get? q)

include hready hkept

theorem extends_beside (hx : x ≠ request.path.name) : h.tree.Extends t := by
  intro q node hnode
  rw [hkept q, hnode]
  intro hbelow
  have hplace : q ≠ place := by
    rintro rfl
    exact absurd hbelow.length_le (by simp)
  have hnot : q ≠ place ++ [request.path.name] := by
    rintro rfl
    exact hx (by simpa using hbelow)
  simp [hready.only q ((List.prefix_append _ _).trans hbelow) hplace hnot] at hnode

theorem takesFile_beside (hy : y ≠ x) : t.TakesFile (place ++ [y]) := by
  have hsame : t.get? (place ++ [y]) = h.tree.get? (place ++ [y]) := by
    refine hkept _ fun hbelow => hy ?_
    have hentry : x = y := by simpa using hbelow
    exact hentry.symm
  refine TakesFile.of_same ?_ hsame
  by_cases hname : y = request.path.name
  · exact hname ▸ takesFile_of_file hready.document
  · exact takesFile_of_vacant
      (hready.only _ (List.prefix_append _ _) (by simp) (by simpa using hname))

end Beside

end EmitRequest.Ready

/-- A back end that makes its scratch directory, and says the same of every document. -/
def BackEnd.saying (emitted : EmitResult) : BackEnd := fun request => do
  (Attempt.makeDirectory (request.scratch.getD request.path.parent)).rephrase .file
  return emitted

theorem BackEnd.saying_delivers {emitted : EmitResult} {binary symbols : Bytes}
    (hsuccess : emitted.success = true) (hbinary : emitted.binary = some binary)
    (hsymbols : emitted.symbols = some symbols) (before : Host) (session : Place) :
    (BackEnd.saying emitted).Delivers before session := by
  intro request h place scratch hready hinside hdirectory hsame hscratch hbeside husable hne
  have hlocate := husable.locate (hbeside ▸ hready.found)
  have hvacant : h.tree.get? (place ++ [scratch.name]) = none :=
    hready.only _ (List.prefix_append _ _) (by simp) (by simpa using hne)
  have hput := updates_put h.tree .directory (ne_nil_of_vacant hvacant)
  have hextends := extends_put .directory hvacant
  have hmade : (Attempt.makeDirectory scratch).on h =
      (.ok (), h.withTree (h.tree.put (place ++ [scratch.name]) .directory)) :=
    Attempt.on_makeDirectory_eq_ok_iff.mpr
      ⟨_, makeDirectory_eq_ok_iff.mpr ⟨_, hlocate, hvacant, rfl⟩, rfl⟩
  refine ⟨emitted, h.withTree (h.tree.put (place ++ [scratch.name]) .directory), ?_, hsuccess,
    ⟨binary, hbinary⟩, fun _ => ⟨symbols, hsymbols⟩,
    ⟨hready.sound.rooted.put (by simp [hvacant]) ?_, hextends _ _ hready.sound.standing⟩,
    fun q hq => hput.other ?_⟩
  · rw [saying, hscratch, Option.getD_some,
      Attempt.on_bind_of_ok (Attempt.on_rephrase_eq_ok_iff.mpr hmade)]
    rfl
  · rw [List.dropLast_concat]
    exact (find_eq_ok_iff.mp hready.found).2
  · rintro rfl
    exact hq (List.prefix_refl _)

namespace Build

variable {backEnd : BackEnd} {settings : Settings} {options : BuildOptions} {names : BuildNames}
variable {sources : List Path} {primary : Fragment} {imported : List Fragment}
variable {h made emptied prepared entered ready after : Host} {session parent place : Place}
variable {w : Workspace} {q : Question} {emitted : EmitResult}

def bareWorkspace (settings : Settings) (names : BuildNames) : Workspace :=
  ⟨settings.cacheRoot, names.session, []⟩

/-- Nothing is in the way of a build of whatever primary script: the session directory can be emptied
and has room in it, the imported scripts can be merged, the back end delivers, and the output is free
and not in the session directory. -/
structure Unhindered (backEnd : BackEnd) (settings : Settings) (options : BuildOptions)
    (names : BuildNames) (imported : List Fragment) (h made emptied prepared : Host)
    (session parent : Place) : Prop where
  sound : h.Sound
  headers : ∀ f ∈ imported, ∃ s, Header.split f.text = .ok s
  makes : (ensureCacheRoot settings.cacheRoot).on h = (.ok (), made)
  empties : (bareWorkspace settings names).enter.on made = (.ok (), emptied)
  stands : emptied.Sound
  found : emptied.tree.find true emptied.directory (bareWorkspace settings names).root =
    .ok (session, .directory)
  room : Room (bareWorkspace settings names).root (2 * (nameLimit + 1))
  delivers : backEnd.Delivers emptied session
  outside : ∀ q ∈ emptied.tree.wayTo true emptied.directory options.output.parent, ¬ session <+: q
  prepares : (Directories.ensure options.output.parent).on emptied = (.ok (), prepared)
  free : Publication.Free prepared names.copies options.output parent

/-! ### Merging -/

theorem exists_merge (hoist : Bool) (primary : Fragment)
    (headers : ∀ f ∈ imported, ∃ s, Header.split f.text = .ok s) (h : Host) :
    ∃ document after, (merge hoist primary imported).on h = (.ok document, after) ∧
      after.tree = h.tree ∧ after.directory = h.directory := by
  obtain ⟨imports, hread, -, -⟩ := exists_imports headers
  have hresult : ∃ document, ((merge hoist primary imported).on h).1 = .ok document := by
    rw [merge, hread, Attempt.on_bind, Attempt.on_ofOutcome]
    dsimp only [Except.mapError]
    rw [Attempt.on_bind, Attempt.on_lift]
    dsimp only
    rw [mergeImports, Document.addAll_empty]
    exact ⟨_, rfl⟩
  obtain ⟨document, hdocument⟩ := hresult
  exact ⟨document, _, Attempt.on_eq hdocument, keeps_merge hoist primary imported h,
    Attempt.on_directory _ h⟩

/-! ### In the workspace -/

/-- A name whose stem is not the directory above, and leaves room in a name for the extension of a
binary. -/
structure Fits (name : Text) : Prop where
  project : (Path.cutExtension name).1 ≠ "..".toList
  binary : (Text.encode ((Path.cutExtension name).1 ++ ".dll")).length ≤ nameLimit

example : ¬ Fits "...x".toList := fun h => h.project (by decide)

theorem Fits.usable {name : Text} (hfits : Fits name) (hplain : w.Plain)
    (hproject : w.project = (Path.cutExtension name).1) (hname : IsFileName name)
    (hroom : Room w.path (nameLimit + 1)) : Usable w.binaryPath ∧ Usable w.symbolsPath := by
  have hends : ∀ extension : Text, '\x00' ∉ extension → 2 < extension.length →
      (Text.encode extension).length = (Text.encode ".dll").length →
      Usable ⟨w.path.anchor, w.path.names ++ [w.project ++ extension]⟩ := by
    intro extension hnull hlong hlength
    refine hroom.usable ⟨namesEntry_of_length ?_, ?_⟩ ?_
    · rw [List.length_append]
      omega
    · have hbinary := hfits.binary
      rwa [length_encode_append, ← hlength, ← length_encode_append, ← hproject] at hbinary
    · rw [List.mem_append, not_or, hproject]
      exact ⟨fun hmem => hname.no_null ((Path.stem_prefix name).subset hmem), hnull⟩
  rw [Workspace.binaryPath_eq hplain,
    Workspace.symbolsPath_eq hplain (hproject ▸ Path.stem_ne_nil hname.toNamesEntry)]
  exact ⟨hends ".dll" (by decide) (by decide) rfl, hends ".pdb" (by decide) (by decide) (by decide)⟩

/-- The document has been written, and there is nothing else in the directory of the project. -/
structure Asked (w : Workspace) (options : BuildOptions) (name : Text) (emptied ready : Host)
    (session place : Place) (q : Question) : Prop where
  workspace : q.workspace = w
  document : q.request.path = w.documentPath name
  scratch : q.request.scratch = some w.scratchPath
  debug : q.request.debug = options.debug
  alone : q.request.Ready ready place
  directory : ready.directory = emptied.directory
  inside : session <+: place
  same : ∀ r, ¬ session <+: r → ready.tree.get? r = emptied.tree.get? r

theorem on_question (settings : Settings) (options : BuildOptions) {document : Document}
    {merged written : Host}
    (hmerge : (merge settings.hoist primary imported).on h = (.ok document, merged))
    (hwrite : (Attempt.write (w.documentPath primary.name) (Text.encode document.text)).on merged =
      (.ok (), written)) :
    ∃ q ready, (question settings options w primary imported).on h = (.ok q, ready) ∧
      q.workspace = w ∧ q.request.path = w.documentPath primary.name ∧
      q.request.text = document.text ∧ q.request.scratch = some w.scratchPath ∧
      q.request.debug = options.debug ∧ ready.tree = written.tree ∧
      ready.directory = written.directory := by
  have hon : (question settings options w primary imported).on h =
      (.ok ⟨w, ⟨document.text, w.documentPath primary.name, w.project,
          ((resolveReferences settings options.references).run written).1, options.debug,
          some w.scratchPath⟩,
        ⟨document.ranges, (w.documentPath primary.name).toText,
          (primary :: imported).map Fragment.path⟩⟩,
        ((resolveReferences settings options.references).run written).2) := by
    rw [Workspace.documentPath] at hwrite
    rw [question, Attempt.on_bind_of_ok hmerge]
    dsimp only
    rw [Attempt.on_bind_of_ok (Attempt.on_rephrase_eq_ok_iff.mpr hwrite), Attempt.on_bind,
      Attempt.on_lift]
    rfl
  exact ⟨_, _, hon, rfl, rfl, rfl, rfl, rfl,
    resolveReferences_tree settings options.references written,
    Attempt.run_directory (resolveReferences settings options.references) written⟩

theorem exists_write_vacant {p : Path} (content : Bytes) (hsound : h.Sound) (husable : Usable p)
    (hparent : h.tree.find true h.directory p.parent = .ok (place, .directory))
    (hvacant : h.tree.get? (place ++ [p.name]) = none) :
    ∃ tree, (Attempt.write p content).on h = (.ok (), h.withTree tree) ∧ (h.withTree tree).Sound ∧
      h.tree.Updates (place ++ [p.name]) (some (.file content false)) tree ∧
      tree.find true h.directory p.parent = .ok (place, .directory) := by
  have hplace := locate_followed (husable.locate hparent) (by simp [hvacant])
  have hput := updates_put h.tree (.file content false) (ne_nil_of_vacant hvacant)
  have hfills : h.tree.Fills _ content _ := ⟨takesFile_of_vacant hvacant, false, hput⟩
  refine ⟨_, Attempt.on_write_eq_ok_iff.mpr ⟨_,
    modifyFile_of_vacant husable.entry.toNamesEntry hplace hvacant, rfl⟩, ?_, hput,
    hfills.find_directory hparent⟩
  refine hfills.sound hsound ?_
  rw [List.dropLast_concat]
  exact (find_eq_ok_iff.mp hparent).2

theorem exists_question (settings : Settings) (options : BuildOptions)
    (hname : IsFileName primary.name)
    (headers : ∀ f ∈ imported, ∃ s, Header.split f.text = .ok s)
    (hentered : w.Entered emptied entered session place) (hroom : Room w.path (nameLimit + 1)) :
    ∃ q ready, (question settings options w primary imported).on entered = (.ok q, ready) ∧
      Asked w options primary.name emptied ready session place q := by
  obtain ⟨document, merged, hmerge, htree, hdirectory⟩ :=
    exists_merge settings.hoist primary headers entered
  have hpath : w.documentPath primary.name = ⟨w.path.anchor, w.path.names ++ [primary.name]⟩ :=
    w.path.join_entry hname.toNamesEntry hname.whole
  have hparent : (w.documentPath primary.name).parent = w.path := by rw [hpath, Path.parent_concat]
  have husable : Usable (w.documentPath primary.name) :=
    hpath ▸ hroom.usable hname.toIsEntry hname.no_null
  have hfound : merged.tree.find true merged.directory (w.documentPath primary.name).parent =
      .ok (place, .directory) := by
    rw [hparent, htree, hdirectory, hentered.found]
  have hvacant : merged.tree.get? (place ++ [(w.documentPath primary.name).name]) = none := by
    rw [htree]
    exact hentered.empty _ (List.prefix_append _ _) (by simp)
  have hsound : merged.Sound := by
    refine ⟨htree ▸ hentered.sound.rooted, ?_⟩
    rw [htree, hdirectory, hentered.sound.standing]
  obtain ⟨tree, hwrite, hsound', hput, hfound'⟩ :=
    exists_write_vacant (Text.encode document.text) hsound husable hfound hvacant
  obtain ⟨q, ready, hon, hworkspace, hq, htext, hscratch, hdebug, hready, hready'⟩ :=
    on_question settings options hmerge hwrite
  rw [Host.withTree_tree] at hready
  rw [Host.withTree_directory] at hready'
  refine ⟨q, ready, hon, hworkspace, hq, hscratch, hdebug, ⟨?_, ?_, ?_, ?_, fun r hr hne hnot => ?_⟩,
    ?_, hentered.inside, fun r hr => ?_⟩
  · refine ⟨hready ▸ hsound'.rooted, ?_⟩
    rw [hready, hready']
    exact hsound'.standing
  · rw [hq, hready, hready', hfound']
  · rw [hq]
    exact husable.entry.toNamesEntry
  · rw [hq, htext, hready]
    exact hput.self
  · rw [hq] at hnot
    rw [hready, hput.other hnot, htree, hentered.empty r hr hne]
  · rw [hready', hdirectory, hentered.directory]
  · rw [hready, hput.other, htree, hentered.same r hr]
    rintro rfl
    exact hr (hentered.inside.trans (List.prefix_append _ _))

/-! ### The answer -/

/-- The back end has delivered, and left the names that it is written under to files. -/
structure Delivered (w : Workspace) (options : BuildOptions) (emptied after : Host)
    (session place : Place) (emitted : EmitResult) : Prop where
  success : emitted.success = true
  binary : ∃ binary, emitted.binary = some binary
  symbols : options.debug = true → ∃ symbols, emitted.symbols = some symbols
  sound : after.Sound
  directory : after.directory = emptied.directory
  found : after.tree.find true after.directory w.path = .ok (place, .directory)
  takes : ∀ x, x ≠ "obj".toList → after.tree.TakesFile (place ++ [x])
  same : ∀ r, ¬ session <+: r → after.tree.get? r = emptied.tree.get? r

theorem Asked.exists_emit {name : Text}
    (hasked : Asked w options name emptied ready session place q)
    (hdelivers : backEnd.Delivers emptied session) (hname : IsFileName name)
    (hne : name ≠ "obj".toList) (hroom : Room w.path (nameLimit + 1)) :
    ∃ emitted after, (emit backEnd q.request).on ready = (.ok emitted, after) ∧
      Delivered w options emptied after session place emitted := by
  have hscratch : w.scratchPath = ⟨w.path.anchor, w.path.names ++ ["obj".toList]⟩ :=
    w.path.join_entry (namesEntry_of_length (by decide)) (by decide)
  have hpath : q.request.path = ⟨w.path.anchor, w.path.names ++ [name]⟩ :=
    hasked.document.trans (w.path.join_entry hname.toNamesEntry hname.whole)
  have husable : Usable w.scratchPath :=
    hscratch ▸ hroom.usable ⟨namesEntry_of_length (by decide), by decide⟩ (by decide)
  have hparent : q.request.path.parent = w.path := by rw [hpath, Path.parent_concat]
  have hbeside : w.scratchPath.parent = q.request.path.parent := by
    rw [hparent, hscratch, Path.parent_concat]
  have hname' : w.scratchPath.name = "obj".toList := by rw [hscratch, Path.name_concat]
  have hapart : "obj".toList ≠ q.request.path.name := by
    rw [hpath, Path.name_concat]
    exact hne.symm
  obtain ⟨emitted, after, hon, hsuccess, hbinary, hsymbols, hsound, hkept⟩ :=
    hdelivers q.request ready place w.scratchPath hasked.alone hasked.inside hasked.directory
      hasked.same hasked.scratch hbeside husable (hname' ▸ hapart)
  rw [hname'] at hkept
  have hdirectory : after.directory = ready.directory := by
    rw [← Attempt.on_directory (backEnd q.request) ready, hon]
  have hfound := find_of_extends hasked.alone.found (hasked.alone.extends_beside hkept hapart)
  obtain ⟨log, hemit⟩ := on_emit backEnd q.request ready
  rw [hon] at hemit
  refine ⟨emitted, _, hemit, hsuccess, hbinary, fun hdebug => hsymbols (hasked.debug.trans hdebug),
    ⟨hsound.rooted, hsound.standing⟩, hdirectory.trans hasked.directory, ?_,
    fun _ => hasked.alone.takesFile_beside hkept, fun r hr => ?_⟩
  · rw [hparent] at hfound
    exact hdirectory ▸ hfound
  · rw [← hasked.same r hr]
    exact hkept r fun hbelow =>
      hr (hasked.inside.trans ((List.prefix_append _ _).trans hbelow))

/-! ### The output -/

theorem Unhindered.apart
    (hclear : Unhindered backEnd settings options names imported h made emptied prepared session parent) :
    ¬ session <+: parent := by
  have hgrown := Directories.on_ensure_growsIn emptied options.output.parent
  rw [hclear.prepares] at hgrown
  refine hclear.outside parent ?_
  have hmem := mem_wayTo (find_eq_ok_iff.mp hclear.free.found).1
  rwa [hgrown.tree.wayTo, hgrown.directory] at hmem

theorem Unhindered.exists_ensure {later : Host}
    (hclear : Unhindered backEnd settings options names imported h made emptied prepared session parent)
    (hsound : later.Sound) (hdirectory : later.directory = emptied.directory)
    (hsame : ∀ r, ¬ session <+: r → later.tree.get? r = emptied.tree.get? r) :
    ∃ z, (Directories.ensure options.output.parent).on later = (.ok (), z) ∧
      ∀ r, ¬ session <+: r → z.tree.get? r = prepared.tree.get? r := by
  have hdrift : Drift (fun _ => True) (session <+: ·) emptied.tree later.tree := by
    intro r
    by_cases hr : session <+: r
    · exact .inl hr
    · exact .inr (.inl (hsame r hr))
  have hsteady : (Directories.ensure options.output.parent).Steady (fun _ => False) (fun _ => True)
      (session <+: ·) emptied :=
    Directories.steady_ensure hclear.stands hclear.outside hclear.prepares
  obtain ⟨⟨hresult, hend⟩, -⟩ := (hsteady later hdirectory hdrift).run (Drift.refl _ _) hsound
    fun _ _ hstep => hstep.standing (by simp)
  have halone : (Directories.ensure options.output.parent).run.run emptied = (.ok (), prepared) :=
    hclear.prepares
  rw [halone] at hresult hend
  exact ⟨_, Attempt.on_eq hresult, fun r hr => hend.firm ⟨hr, .inl trivial⟩⟩

theorem Unhindered.later {later : Host}
    (hclear : Unhindered backEnd settings options names imported h made emptied prepared session parent)
    (hsound : later.Sound) (hdirectory : later.directory = emptied.directory)
    (hsame : ∀ r, ¬ session <+: r → later.tree.get? r = emptied.tree.get? r) :
    ∃ z, (Directories.ensure options.output.parent).on later = (.ok (), z) ∧
      Publication.Free z names.copies options.output parent ∧ later.tree.Extends z.tree ∧
      z.directory = later.directory := by
  obtain ⟨z, hensure, hstays⟩ := hclear.exists_ensure hsound hdirectory hsame
  have hgrows := Directories.on_ensure_grows later options.output.parent
  have hgrown := Directories.on_ensure_growsIn emptied options.output.parent
  rw [hensure] at hgrows
  rw [hclear.prepares] at hgrown
  have hsession : prepared.tree.get? session = some .directory :=
    hgrown.tree.extends _ _ (find_eq_ok_iff.mp hclear.found).2
  have hbeside : ∀ {x : Text}, parent ++ [x] ≠ session → ¬ session <+: parent ++ [x] := by
    intro x hne hbelow
    rcases List.prefix_concat_iff.mp hbelow with hsame | hbelow
    · exact hne hsame.symm
    · exact hclear.apart hbelow
  refine ⟨z, hensure, ⟨?_, hclear.free.usable, fun p hp => ?_, fun p hp => ?_⟩,
    hgrows.tree, hgrows.directory⟩
  · rw [← hclear.free.found, hgrows.directory, hdirectory, ← hgrown.directory]
    refine find_agree fun q hq => hstays q (hclear.outside q ?_)
    rwa [hgrown.tree.wayTo, hgrown.directory] at hq
  · refine (hclear.free.takes p hp).of_same (hstays _ (hbeside ?_))
    intro hplace
    exact (hclear.free.takes p hp).not_directory (hplace ▸ hsession)
  · refine (hstays _ (hbeside ?_)).trans (hclear.free.vacant p hp)
    intro hplace
    have hvacant := hclear.free.vacant p hp
    simp [hplace, hsession] at hvacant

theorem Unhindered.exists_conclude
    (hclear : Unhindered backEnd settings options names imported h made emptied prepared session parent)
    (hplain : w.Plain) (hproject : w.project ≠ []) (hbinary : Usable w.binaryPath)
    (hsymbols : Usable w.symbolsPath) (hinside : session <+: place)
    (hdelivered : Delivered w options emptied after session place emitted) (origin : Origin) :
    ∃ symbols final, (conclude options names.copies w origin emitted).on after =
      (.ok (.built options.output symbols (warnings origin emitted)), final) := by
  obtain ⟨binary, hemitted⟩ := hdelivered.binary
  have hdebug : ¬ (options.debug && emitted.symbols.isNone) = true := by
    intro hmissing
    obtain ⟨hdebug, hnone⟩ := Bool.and_eq_true_iff.mp hmissing
    obtain ⟨symbols, hsome⟩ := hdelivered.symbols hdebug
    simp [hsome] at hnone
  let symbols := if options.debug then emitted.symbols else none
  obtain ⟨written, hwrite, hsound, hdirectory, houtside, hread, hfind⟩ :=
    Workspace.exists_write hplain hproject hdelivered.sound hdelivered.found hbinary hsymbols
      (hdelivered.takes _ (Workspace.append_ne_scratch w.project (by decide)))
      (hdelivered.takes _ (Workspace.append_ne_scratch w.project (by decide))) binary symbols
  have hsame : ∀ r, ¬ session <+: r → written.tree.get? r = emptied.tree.get? r := fun r hr =>
    (houtside r fun hbelow => hr (hinside.trans hbelow)).trans (hdelivered.same r hr)
  obtain ⟨z, hensure, hfree, hextends, hz⟩ :=
    hclear.later hsound (hdirectory.trans hdelivered.directory) hsame
  have hpublish : ∃ published final, (Publication.publish .whole names.copies w.binaryPath
      options.output (symbols.map fun _ => w.symbolsPath)).on written =
        (.ok (options.output, published), final) := by
    refine hfree.exists_publish hensure (hz ▸ readFile_of_extends hread hextends) ?_
    intro source hsource
    obtain ⟨bytes, hbytes, rfl⟩ := Option.map_eq_some_iff.mp hsource
    obtain ⟨runnable, hfile⟩ := hfind bytes hbytes
    refine ⟨_, bytes, runnable, hz ▸ find_of_extends hfile hextends, fun hsame => ?_⟩
    exact hclear.apart (List.append_inj_left' hsame rfl ▸ hinside)
  obtain ⟨published, final, hpublish⟩ := hpublish
  refine ⟨published, final, ?_⟩
  rw [conclude, hdelivered.success, hemitted]
  dsimp only
  rw [if_neg hdebug, Attempt.on_bind_of_ok (Attempt.on_rephrase_eq_ok_iff.mpr hwrite)]
  dsimp only
  rw [Attempt.on_bind_of_ok (Attempt.on_rephrase_eq_ok_iff.mpr hpublish)]
  rfl

/-! ### Under a name -/

theorem result_runFragments {entered : Host}
    (hmakes : (ensureCacheRoot settings.cacheRoot).on h = (.ok (), made))
    (henter : (Workspace.mk settings.cacheRoot names.session (projectOf primary)).enter.on made =
      (.ok (), entered)) :
    ((runFragments backEnd settings options names primary imported).on h).1 =
      ((runIn backEnd settings options names.copies
        ⟨settings.cacheRoot, names.session, projectOf primary⟩ primary imported).on entered).1 := by
  rw [runFragments, Attempt.on_bind_of_ok (Attempt.on_rephrase_eq_ok_iff.mpr hmakes),
    Attempt.on_bind_of_ok (Attempt.on_rephrase_eq_ok_iff.mpr henter), Attempt.on_followedBy]

section Named

variable (hentry : NamesEntry names.session) (hwhole : '/' ∉ names.session)

include hentry hwhole

theorem plain_workspace (cacheRoot : Path) (primary : Fragment) :
    (Workspace.mk cacheRoot names.session (projectOf primary)).Plain :=
  ⟨hentry, hwhole, Path.no_slash_stem primary.path⟩

section Fitting

variable
  (hclear : Unhindered backEnd settings options names imported h made emptied prepared session parent)
  (hname : IsFileName primary.name) (hfits : Fits primary.name)

include hclear hname hfits

theorem Unhindered.exists_enter :
    let w : Workspace := ⟨settings.cacheRoot, names.session, projectOf primary⟩
    ∃ entered place, w.enter.on made = (.ok (), entered) ∧ w.Entered emptied entered session place ∧
      Room w.path (nameLimit + 1) := by
  intro w
  have hplain : w.Plain := plain_workspace hentry hwhole settings.cacheRoot primary
  have hmade := hclear.makes
  rw [ensureCacheRoot, Attempt.on_rephrase_eq_ok_iff] at hmade
  have hsound := Directories.on_ensure_sound hclear.sound settings.cacheRoot
  rw [hmade] at hsound
  have hcache := Directories.isDirectory_of_on_ensure hmade
  by_cases hmark : isMark w.project = true
  · obtain ⟨entered, henter, hentered⟩ := Workspace.exists_enter_of_mark hplain hsound hcache
      hclear.stands hclear.empties hclear.found hmark
    exact ⟨entered, session, henter, hentered,
      hplain.path_of_mark hmark ▸ hclear.room.mono (by omega)⟩
  · have hstem : w.project <+: primary.name := Path.stem_prefix primary.name
    have hproject : IsEntry w.project :=
      ⟨⟨Bool.eq_false_iff.mpr hmark, hfits.project⟩,
        (length_encode_le hstem).trans hname.length_le⟩
    have hroom : Room w.path (nameLimit + 1) := by
      rw [hplain.path_of_entry hproject.toNamesEntry]
      exact (hclear.room.mono (by omega)).concat hproject.length_le fun hnull =>
        hname.no_null (hstem.subset hnull)
    obtain ⟨entered, henter, hentered⟩ := Workspace.exists_enter_of_entry hplain hsound hcache
      hclear.stands hclear.empties hclear.found hproject hroom.askable
    exact ⟨entered, _, henter, hentered, hroom⟩

theorem Unhindered.built (hne : primary.name ≠ "obj".toList) :
    ∃ symbols warnings, ((runFragments backEnd settings options names primary imported).on h).1 =
      .ok (.built options.output symbols warnings) := by
  have hplain := plain_workspace hentry hwhole settings.cacheRoot primary
  obtain ⟨entered, place, henter, hentered, hroom⟩ :=
    hclear.exists_enter hentry hwhole hname hfits
  obtain ⟨q, ready, hquestion, hasked⟩ :=
    exists_question settings options hname hclear.headers hentered hroom
  obtain ⟨emitted, after, hemit, hdelivered⟩ :=
    hasked.exists_emit hclear.delivers hname hne hroom
  obtain ⟨hbinary, hsymbols⟩ := hfits.usable hplain rfl hname hroom
  obtain ⟨symbols, final, hconclude⟩ := hclear.exists_conclude hplain
    (Path.stem_ne_nil hname.toNamesEntry) hbinary hsymbols hentered.inside hdelivered q.origin
  refine ⟨symbols, warnings q.origin emitted, ?_⟩
  rw [result_runFragments hclear.makes henter, runIn_eq, Attempt.on_bind_of_ok hquestion, answer,
    Attempt.on_bind_of_ok hemit, hasked.workspace, hconclude]

end Fitting

theorem fits_of_built {output : Path} {symbols : Option Path} {warnings : List Diagnostic}
    (hsound : h.Sound) (hon : ((runFragments backEnd settings options names primary imported).on h).1 =
      .ok (.built output symbols warnings)) : Fits primary.name := by
  have hplain := plain_workspace hentry hwhole settings.cacheRoot primary
  rcases on_runFragments_cases (Attempt.on_eq hon) with ⟨fault, hfault⟩ |
    ⟨made, entered, last, hmakes, henter, hrun, -⟩
  · simp at hfault
  · rw [ensureCacheRoot, Attempt.on_rephrase_eq_ok_iff] at hmakes
    have hsound' := Directories.on_ensure_sound hsound settings.cacheRoot
    rw [hmakes] at hsound'
    refine ⟨Workspace.not_up_of_enter hplain hsound' (Directories.isDirectory_of_on_ensure hmakes)
      henter, ?_⟩
    obtain ⟨_, _, _, hconclude⟩ := conclude_of_runIn hrun
    obtain ⟨_, _, _, -, -, hwrite, -⟩ := published_of_conclude hconclude
    exact Workspace.length_le_of_write hplain hwrite

end Named

theorem scratch_of_emit {c : Compiler} {searchPath : List Path} {launch : Launcher}
    {request : EmitRequest} (hon : ((c.emit searchPath launch request).on h).1 = .ok emitted)
    {r : Place} {node : Node} (hfound : h.tree.find true h.directory (Compiler.scratchOf request) =
      .ok (r, node)) : node = .directory := by
  rw [Compiler.emit] at hon
  obtain ⟨_, after, hensure, -⟩ := Attempt.on_bind_eq_ok_iff.mp (Attempt.on_eq hon)
  rw [Attempt.on_rephrase_eq_ok_iff] at hensure
  have hgrows := Directories.on_ensure_grows h (Compiler.scratchOf request)
  obtain ⟨q, hthere⟩ := isDirectory_iff.mp (Directories.isDirectory_of_on_ensure hensure)
  rw [hensure] at hgrows
  rw [hgrows.directory, find_of_extends hfound hgrows.tree, Except.ok.injEq, Prod.mk.injEq] at hthere
  exact hthere.2

theorem not_compiled (hname : primary.name = "obj".toList) (c : Compiler) (searchPath : List Path)
    (launch : Launcher) (result : BuildResult) :
    ((runFragments (c.emit searchPath launch) settings options names primary imported).on h).1 ≠
      .ok result := by
  intro hon
  rcases on_runFragments_cases (Attempt.on_eq hon) with ⟨fault, hfault⟩ |
    ⟨_, entered, last, -, -, hrun, -⟩
  · simp at hfault
  · simp only [runIn, hname, Attempt.on_bind_eq_ok_iff, Attempt.on_rephrase_eq_ok_iff] at hrun
    obtain ⟨document, _, -, _, written, hwrite, references, ready, hreferences, emitted, _, hemit, -⟩ :=
      hrun
    obtain ⟨tree, hwritten, rfl⟩ := Attempt.on_write_eq_ok_iff.mp hwrite
    obtain ⟨q, node, hfile, hnode⟩ := find_of_modifyFile hwritten
    rw [Attempt.on_lift] at hreferences
    obtain ⟨-, rfl⟩ := Prod.mk.inj hreferences
    obtain ⟨log, hlog⟩ := on_emit (c.emit searchPath launch) _ _
    rw [hlog, Prod.mk.injEq, Attempt.mapError_eq_ok_iff] at hemit
    refine hnode (scratch_of_emit (r := q) hemit.1 ?_)
    rw [resolveReferences_tree, Attempt.run_directory]
    exact hfile

/-- The directory of a project is one in the session directory unless the name of the primary script is
two or three dots and an extension, and the paths in it are different unless that name is the one of
another of them. If nothing else is in the way, a build under any name but that of the scratch
directory succeeds if the name fits, and only then; under that one no compiler ever runs. -/
theorem builds_under_names_that_fit (settings : Settings) (options : BuildOptions)
    (hread : ((Sources.readAll sources).on h).1 = .ok (primary :: imported))
    (hname : IsFileName primary.name) (hentry : NamesEntry names.session)
    (hwhole : '/' ∉ names.session) :
    let w : Workspace := ⟨settings.cacheRoot, names.session, projectOf primary⟩
    (w.IsInside ↔ ¬ LeavesDots primary.name) ∧
    ((w.paths primary.name).Nodup ↔ primary.name ≠ "obj".toList ∧
      (Path.cutExtension primary.name).2 ≠ ".dll".toList ∧
      (Path.cutExtension primary.name).2 ≠ ".pdb".toList) ∧
    (∀ {backEnd made emptied prepared session parent},
      Unhindered backEnd settings options names imported h made emptied prepared session parent →
      primary.name ≠ "obj".toList →
      ((∃ symbols warnings, ((run backEnd settings options names sources).on h).1 =
        .ok (.built options.output symbols warnings)) ↔ Fits primary.name)) ∧
    (primary.name = "obj".toList → ∀ (c : Compiler) searchPath launch result,
      ((run (c.emit searchPath launch) settings options names sources).on h).1 ≠ .ok result) := by
  intro w
  have hplain : w.Plain := plain_workspace hentry hwhole settings.cacheRoot primary
  have hreads : (Sources.readAll sources).on h = (.ok (primary :: imported), h) := by
    rcases Sources.on_readAll sources h with ⟨fragments, hall, -⟩ | ⟨_, -, fault, -, hfailed⟩
    · rw [hall, Except.ok.injEq] at hread
      rw [hall, hread]
    · simp [hfailed] at hread
  refine ⟨(Workspace.isInside_iff hplain).trans (namesEntry_stem_iff hname.toNamesEntry),
    Workspace.nodup_paths_iff hplain rfl hname.toNamesEntry hname.whole, fun hclear hne => ?_,
    fun hscratch c searchPath launch result => ?_⟩
  · rw [on_run_of_read hreads]
    exact ⟨fun ⟨_, _, hon⟩ => fits_of_built hentry hwhole hclear.sound hon,
      fun hfits => hclear.built hentry hwhole hname hfits hne⟩
  · rw [on_run_of_read hreads]
    exact not_compiled hscratch c searchPath launch result

/-- A script with two dots in its name on a host that has nothing else. -/
theorem builds_under_names_that_fit_dotted :
    let h : Host := { tree := ⟨[(["a.b.csx".toList], .file (Text.encode "x") false)]⟩ }
    let backEnd := BackEnd.saying { success := true, binary := some [77], symbols := some [80] }
    let w : Workspace := ⟨"/c", "run", "a.b"⟩
    w.IsInside ∧ (w.paths "a.b.csx").Nodup ∧ ∃ symbols warnings,
      ((run backEnd { cacheRoot := "/c" } { output := "/a.dll", debug := true } ⟨"run", ⟨"t", "u"⟩⟩
        ["/a.b.csx"]).on h).1 = .ok (.built "/a.dll" symbols warnings) := by
  intro h backEnd w
  let settings : Settings := { cacheRoot := "/c" }
  let options : BuildOptions := { output := "/a.dll", debug := true }
  let names : BuildNames := ⟨"run", ⟨"t", "u"⟩⟩
  let made := ((ensureCacheRoot settings.cacheRoot).on h).2
  let emptied := ((bareWorkspace settings names).enter.on made).2
  let prepared := ((Directories.ensure options.output.parent).on emptied).2
  have hmakes : ((ensureCacheRoot settings.cacheRoot).on h).1 = .ok () := by decide +kernel
  have hempties : ((bareWorkspace settings names).enter.on made).1 = .ok () := by decide +kernel
  have hprepares : ((Directories.ensure options.output.parent).on emptied).1 = .ok () := by
    decide +kernel
  have hrooted : emptied.tree.Rooted := rooted_of_nodes (by decide +kernel)
  have hstanding : emptied.tree.get? emptied.directory = some .directory := by decide +kernel
  have hfound : emptied.tree.find true emptied.directory (bareWorkspace settings names).root =
      .ok (["c".toList, ".build".toList, "run".toList], .directory) := by decide +kernel
  have hroom : Room (bareWorkspace settings names).root (2 * (nameLimit + 1)) :=
    ⟨(by decide +kernel : List.any _ _ = false), by decide +kernel⟩
  have houtside : ∀ q ∈ emptied.tree.wayTo true emptied.directory options.output.parent,
      ¬ ["c".toList, ".build".toList, "run".toList] <+: q := by decide +kernel
  have husable : ∀ p ∈ Publication.files names.copies options.output, 2 < p.name.length ∧
      (Text.encode p.name).length ≤ nameLimit ∧ p.names.any (·.contains '\x00') = false ∧
      isTooLong p = false := by
    decide +kernel
  have hfree : Publication.Free prepared names.copies options.output [] := {
    found := by decide +kernel
    usable := fun p hp =>
      have ⟨hlong, hshort, hnull, hwhole⟩ := husable p hp
      ⟨⟨namesEntry_of_length hlong, hshort⟩, hnull, hwhole⟩
    takes := by
      have hvacant : ∀ p ∈ [options.output, options.output.withExtension ".pdb"],
          prepared.tree.get? ([] ++ [p.name]) = none := by decide +kernel
      exact fun p hp => takesFile_of_vacant (hvacant p hp)
    vacant := by decide +kernel }
  have hclear : Unhindered backEnd settings options names [] h made emptied prepared
      ["c".toList, ".build".toList, "run".toList] [] := {
    sound := ⟨rooted_of_nodes (by decide +kernel), rfl⟩
    headers := by simp
    makes := Attempt.on_eq hmakes
    empties := Attempt.on_eq hempties
    stands := ⟨hrooted, hstanding⟩
    found := hfound
    room := hroom
    delivers := BackEnd.saying_delivers rfl rfl rfl _ _
    outside := houtside
    prepares := Attempt.on_eq hprepares
    free := hfree }
  let primary : Fragment := ⟨"/a.b.csx", "x"⟩
  have hread : ((Sources.readAll ["/a.b.csx"]).on h).1 = .ok [primary] := by decide +kernel
  have hprimary : primary.name = "a.b.csx".toList := by decide
  have hproject : projectOf primary = "a.b".toList := by decide
  have hname : IsFileName primary.name := by
    rw [hprimary]
    exact ⟨⟨namesEntry_of_length (by decide), by decide⟩, by decide, by decide⟩
  have hsession : NamesEntry names.session := namesEntry_of_length (by decide)
  obtain ⟨hinside, hpaths, hbuilds, -⟩ :=
    builds_under_names_that_fit settings options hread hname hsession (by decide)
  rw [hproject, hprimary] at hinside hpaths
  rw [hprimary] at hbuilds
  have hdots : ¬ LeavesDots "a.b.csx".toList :=
    (namesEntry_stem_iff (hprimary ▸ hname.toNamesEntry)).mp (namesEntry_of_length (by decide))
  exact ⟨hinside.mpr hdots, hpaths.mpr (by decide),
    (hbuilds hclear (by decide)).mpr ⟨by decide, by decide⟩⟩

end Build

end ScriptWeave
