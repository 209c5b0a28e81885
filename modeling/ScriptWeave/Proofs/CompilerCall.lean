import ScriptWeave.Proofs.CompilerOutput.Streams
import ScriptWeave.Proofs.FileTree.Standpoint

/-!
What a compiler is given. Its paths are handed on as they are written, and it reads them from the
scratch directory, while its caller reads them from its own. Those that are absolute mean the same to
both, and so do all of them if the caller stands in the scratch directory. Otherwise a relative path
means to the compiler what its caller would find under the scratch directory.
-/

namespace ScriptWeave.Compiler

open FileTree Attempt

variable {c : Compiler} {searchPath : List Path} {request : EmitRequest} {h after : Host} {p : Path}

theorem run_searchProgram (name : Text) (searchPath : List Path) (h : Host) :
    ((searchProgram name searchPath).run h).2 = h := by
  induction searchPath with
  | nil => rfl
  | cons directory directories ih =>
      rw [searchProgram]
      show (((if _ then _ else _ : Procedure _)).run _).2 = h
      split
      · rfl
      · exact ih

theorem keeps_resolveExecutable (searchPath : List Path) (command : List Text) :
    (resolveExecutable searchPath command).Keeps id := by
  cases command with
  | nil => exact fun _ => rfl
  | cons name leading =>
      rw [resolveExecutable]
      split
      · refine Keeps.bind (Keeps.rephrase (fun _ => rfl) _) fun isThere => ?_
        split
        · exact keeps_pure _
        · exact fun _ => rfl
      · split
        · refine Keeps.bind (keeps_lift fun _ => rfl) fun isRunnable => ?_
          split
          · exact keeps_pure _
          · exact fun _ => rfl
        · refine Keeps.bind (keeps_lift (run_searchProgram name searchPath)) fun found => ?_
          split
          · exact keeps_pure _
          · exact fun _ => rfl

theorem on_emit {executable : Text}
    (hensure : (Directories.ensure (scratchOf request)).on h = (.ok (), after))
    (hresolve : ((resolveExecutable searchPath c.command).on after).1 = .ok executable)
    (launch : Launcher) :
    (c.emit searchPath launch request).on h =
      ((launch ⟨executable, c.arguments request (outputPath request), scratchOf request⟩).rephrase
        BackEndFault.ofLaunch >>= told request).on after := by
  have hscratch : ((Directories.ensure (scratchOf request)).rephrase BackEndFault.file).on h =
      (.ok (), after) := on_rephrase_eq_ok_iff.mpr hensure
  have hprogram : (resolveExecutable searchPath c.command).on after = (.ok executable, after) := by
    rw [on_eq hresolve, Prod.mk.injEq]
    exact ⟨rfl, keeps_resolveExecutable searchPath c.command after⟩
  rw [emit_eq, started, bind_assoc, on_bind_of_ok hscratch, bind_assoc, on_bind_of_ok hprogram]

theorem arguments_eq (c : Compiler) (request : EmitRequest) (output : Path) :
    ∃ front between, c.arguments request output =
      front ++ ("-out:" ++ output.toText) :: between ++ [request.path.toText] := by
  refine ⟨c.command.drop 1 ++ ["-nologo".toList, "-target:library".toList],
    debugArguments request.debug ++ request.references.map (fun p => "-r:".toList ++ p.toText) ++
      c.extraArguments, ?_⟩
  simp [arguments]

/-- What a path means, as a text, to a process that stands in the scratch directory. -/
structure Seen (h : Host) (scratch : Path) (place : Place) (text : Text) (p : Path) : Prop where
  alike (hp : p.isAbsolute = true ∨ place = h.directory) (follow : Bool) :
    h.tree.locate follow place (.ofWritten text) = h.tree.locate follow h.directory p
  under (hp : p.isAbsolute = false) {q : Place}
    (hq : h.tree.locate true h.directory (scratch.join p) = .ok q) :
    h.tree.locate true place (.ofWritten text) = .ok q
  lost (hp : p.isAbsolute = false) {name : Text} {names : List Text}
    (hnames : p.names = name :: names) (hname : NamesEntry name)
    (hvacant : h.tree.get? (place ++ [name]) = none) (found : Place × Node) :
    h.tree.find true place (.ofWritten text) ≠ .ok found

theorem seen_of_text {scratch : Path} {place : Place} {text : Text}
    (hscratch : h.tree.find true h.directory scratch = .ok (place, .directory))
    (htext : ∀ follow directory,
      h.tree.locate follow directory (.ofWritten text) = h.tree.locate follow directory p) :
    Seen h scratch place text p where
  alike hp follow := by
    rw [htext]
    rcases hp with hp | rfl
    · exact locate_of_isAbsolute hp
    · rfl
  under hp q hq := by
    rw [htext]
    exact locate_behind hscratch hp hq
  lost hp _ _ hnames hname hvacant found := by
    rw [find, htext, ← find]
    exact find_of_vacant hp hnames hname hvacant found

theorem seen_toText {scratch : Path} {place : Place}
    (hscratch : h.tree.find true h.directory scratch = .ok (place, .directory)) (hp : p.Legible) :
    Seen h scratch place p.toText p :=
  seen_of_text hscratch fun follow directory => locate_toText hp h.tree follow directory

theorem legible_scratchOf (hpath : request.path.Legible)
    (hscratch : ∀ p ∈ request.scratch, p.Legible) : (scratchOf request).Legible := by
  rw [scratchOf]
  cases hgiven : request.scratch with
  | none => exact hpath.parent
  | some p => exact hscratch p hgiven

theorem empty_of_new {q : Place} (hensure : (Directories.ensure p).on h = (.ok (), after))
    (hrooted : h.tree.Rooted) (hlocate : h.tree.locate false h.directory p = .ok q)
    (hvacant : h.tree.get? q = none) :
    after.tree.find true after.directory p = .ok (q, .directory) ∧
      ∀ name, after.tree.get? (q ++ [name]) = none := by
  rw [Directories.on_ensure_of_vacant hlocate hvacant, Prod.mk.injEq] at hensure
  obtain ⟨-, rfl⟩ := hensure
  refine ⟨find_followed (find_put_directory hlocate hvacant), fun name => ?_⟩
  rw [Host.withTree_tree, get?_put_of_ne _ _ (by simp)]
  exact hrooted.nothing_in (by simp [hvacant]) name

/-- The compiler runs in the scratch directory, with the texts of the paths that its caller reads
from where it stands. A directory that had to be made is empty, and then a relative path leads to
nothing there, unless it starts with a double dot or has no name at all. -/
theorem seen_from_scratch {executable : Text}
    (hensure : (Directories.ensure (scratchOf request)).on h = (.ok (), after))
    (hresolve : ((resolveExecutable searchPath c.command).on after).1 = .ok executable)
    (hpath : request.path.Legible) (hscratch : ∀ p ∈ request.scratch, p.Legible) :
    (∀ launch : Launcher, (c.emit searchPath launch request).on h =
      ((launch ⟨executable, c.arguments request (outputPath request), scratchOf request⟩).rephrase
        BackEndFault.ofLaunch >>= told request).on after) ∧
    (∃ front between, c.arguments request (outputPath request) =
      front ++ ("-out:" ++ (outputPath request).toText) :: between ++ [request.path.toText]) ∧
    ∃ place, after.tree.find true after.directory (scratchOf request) = .ok (place, .directory) ∧
      (h.tree.Rooted → (∃ q, h.tree.locate false h.directory (scratchOf request) = .ok q ∧
        h.tree.get? q = none) → ∀ name, after.tree.get? (place ++ [name]) = none) ∧
      Seen after (scratchOf request) place executable (.ofWritten executable) ∧
      Seen after (scratchOf request) place (outputPath request).toText (outputPath request) ∧
      Seen after (scratchOf request) place request.path.toText request.path := by
  have hlegible := legible_scratchOf hpath hscratch
  obtain ⟨place, hplace⟩ := isDirectory_iff.mp (Directories.isDirectory_of_on_ensure hensure)
  refine ⟨on_emit hensure hresolve, arguments_eq c request _, place, hplace, ?_, ?_, ?_, ?_⟩
  · rintro hrooted ⟨q, hlocate, hvacant⟩
    obtain ⟨hfound, hempty⟩ := empty_of_new hensure hrooted hlocate hvacant
    rw [hplace, Except.ok.injEq, Prod.mk.injEq] at hfound
    exact hfound.1 ▸ hempty
  · exact seen_of_text hplace fun _ _ => rfl
  · exact seen_toText hplace (hlegible.join (Path.legible_ofText _))
  · exact seen_toText hplace hpath

def cached : Host where
  tree := ⟨[(["bin".toList], .directory), (["bin".toList, "csc".toList], .file [] true),
    (["w".toList], .directory), (["w".toList, "c".toList], .directory),
    (["w".toList, "c".toList, "m.cs".toList], .file [] false)]⟩
  directory := ["w".toList]

/-- Under an absolute cache root the compiler finds the document that its caller does, and under a
relative one it finds nothing. -/
theorem seen_from_scratch_two_roots :
    let c : Compiler := { command := ["/bin/csc"] }
    let request (root : Path) : EmitRequest :=
      { text := [], path := root.join "m.cs", project := "m", scratch := some (root.join "obj") }
    let document : Place := ["w".toList, "c".toList, "m.cs".toList]
    ∃ after place,
      (∀ launch : Launcher, (c.emit [] launch (request "c")).on cached =
        ((launch ⟨"/bin/csc", c.arguments (request "c") "c/obj/m.dll", "c/obj"⟩).rephrase
          BackEndFault.ofLaunch >>= told (request "c")).on after) ∧
      after.tree.find true after.directory "c/obj" = .ok (place, .directory) ∧
      after.tree.locate true after.directory (request "c").path = .ok document ∧
      (∀ found, after.tree.find true place (.ofWritten (request "c").path.toText) ≠ .ok found) ∧
      after.tree.locate true place (.ofWritten (request "/w/c").path.toText) = .ok document := by
  intro c request document
  let scratch : Place := ["w".toList, "c".toList, "obj".toList]
  let after : Host := cached.withTree (cached.tree.put scratch .directory)
  have hensure : (Directories.ensure (scratchOf (request "c"))).on cached = (.ok (), after) := by
    decide +kernel
  have hensure' :
      (Directories.ensure (scratchOf (request "/w/c"))).on cached = (.ok (), after) := by
    decide +kernel
  have hresolve : ((resolveExecutable [] c.command).on after).1 = .ok "/bin/csc".toList := by
    decide +kernel
  have hrooted : cached.tree.Rooted := rooted_of_nodes (by decide +kernel)
  obtain ⟨hemit, -, place, hplace, hempty, -, -, hseen⟩ :=
    seen_from_scratch hensure hresolve (by decide +kernel) (by decide +kernel)
  obtain ⟨-, -, place', hplace', -, -, -, hseen'⟩ :=
    seen_from_scratch hensure' hresolve (by decide +kernel) (by decide +kernel)
  have hnew : ∃ q, cached.tree.locate false cached.directory (scratchOf (request "c")) = .ok q ∧
      cached.tree.get? q = none := ⟨scratch, by decide +kernel⟩
  have hsame : place' = place := by
    have hboth : after.tree.find true after.directory (scratchOf (request "/w/c")) =
        after.tree.find true after.directory (scratchOf (request "c")) := by decide +kernel
    rw [hplace, hplace', Except.ok.injEq, Prod.mk.injEq] at hboth
    exact hboth.1
  refine ⟨after, place, hemit, hplace, by decide +kernel, ?_, ?_⟩
  · have hnames : (request "c").path.names = ["c".toList, "m.cs".toList] := rfl
    exact hseen.lost rfl hnames ⟨by decide, by decide⟩ (hempty hrooted hnew "c".toList)
  · rw [← hsame, hseen'.alike (.inl rfl) true]
    decide +kernel

end ScriptWeave.Compiler
