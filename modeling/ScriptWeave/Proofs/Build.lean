import ScriptWeave.Build
import ScriptWeave.Proofs.Publication

namespace ScriptWeave

open FileTree Publication

namespace Workspace

/-- There is nothing yet where the files of the build go. -/
structure Fresh (w : Workspace) (h : Host) (place : Place) : Prop where
  entry : NamesEntry w.binaryPath.name
  apart : w.symbolsPath ≠ w.binaryPath
  way : h.tree.find true h.directory w.binaryPath.parent = .ok (place, .directory)
  vacant : h.tree.get? (place ++ [w.binaryPath.name]) = none
  symbols_vacant : h.tree.get? (place ++ [w.symbolsPath.name]) = none

variable {w : Workspace} {h h' : Host} {place : Place}

theorem on_write {binary : Bytes} {symbols : Option Bytes} {paths : Path × Option Path}
    (hfresh : w.Fresh h place) (hon : (w.write binary symbols).on h = (.ok paths, h')) :
    paths = (w.binaryPath, symbols.map fun _ => w.symbolsPath) ∧
      h'.tree.readFile h'.directory w.binaryPath = .ok binary ∧
      ∀ bytes, symbols = some bytes → h'.tree.readFile h'.directory w.symbolsPath = .ok bytes := by
  unfold write at hon
  rw [Attempt.on_rephrase_eq_ok_iff, Attempt.on_bind_eq_ok_iff] at hon
  obtain ⟨_, between, hbinary, hrest⟩ := hon
  obtain ⟨hlocate, tree, rfl, hupdates⟩ :=
    on_write_vacant (.refl _) hfresh.way hfresh.entry hfresh.vacant hbinary
  have hextends := hupdates.extends (.refl _) hfresh.vacant
  have hread := readFile_of_find (find_file hlocate hextends hupdates.self)
  cases symbols with
  | none =>
      obtain ⟨hpaths, rfl⟩ := Prod.mk.inj hrest
      exact ⟨(Except.ok.inj hpaths).symm, hread, by simp⟩
  | some bytes =>
      obtain ⟨_, _, hsymbols, hpure⟩ := Attempt.on_bind_eq_ok_iff.mp hrest
      obtain ⟨hpaths, rfl⟩ := Prod.mk.inj hpure
      have hname : w.symbolsPath.name ≠ w.binaryPath.name :=
        Path.withExtension_name_ne hfresh.entry hfresh.apart
      have hapart : place ++ [w.symbolsPath.name] ≠ place ++ [w.binaryPath.name] := by
        simpa using hname
      have hway := find_of_extends hfresh.way hextends
      rw [← Path.withName_parent w.binaryPath (w.binaryPath.stem ++ ".pdb")] at hway
      have hvacant : tree.get? (place ++ [w.symbolsPath.name]) = none :=
        (hupdates.other hapart).trans hfresh.symbols_vacant
      obtain ⟨hlocate', tree', rfl, hupdates'⟩ := on_write_vacant (h := h.withTree tree) (.refl _)
        hway (namesEntry_symbols w.binaryPath) hvacant hsymbols
      have hextends' := hupdates'.extends (.refl _) hvacant
      refine ⟨(Except.ok.inj hpaths).symm, readFile_of_extends hread hextends', ?_⟩
      rintro _ ⟨⟩
      exact readFile_of_find (find_file hlocate' hextends' hupdates'.self)

end Workspace

namespace Build

variable {options : BuildOptions} {names : CopyNames} {w : Workspace} {origin : Origin}
variable {emitted : EmitResult} {h h' : Host} {place : Place} {output : Path}
variable {symbols : Option Path} {warnings : List Diagnostic}

theorem published_of_conclude
    (hon : (conclude options names w origin emitted).on h =
      (.ok (.built output symbols warnings), h')) :
    ∃ binary paths written, emitted.binary = some binary ∧
      (options.debug = true → emitted.symbols.isSome) ∧
      (w.write binary (if options.debug then emitted.symbols else none)).on h =
        (.ok paths, written) ∧
      (publish .whole names paths.1 options.output paths.2).on written =
        (.ok (output, symbols), h') := by
  rw [conclude] at hon
  split at hon
  · rename_i binary _ hbinary
    split at hon
    · simp [Attempt.on_pure] at hon
    · rename_i hmissing
      simp only [Attempt.on_bind_eq_ok_iff, Attempt.on_rephrase_eq_ok_iff] at hon
      obtain ⟨paths, written, hwrite, published, after, hpublish, hpure⟩ := hon
      obtain ⟨hresult, rfl⟩ := Prod.mk.inj hpure
      obtain ⟨rfl, rfl, -⟩ := BuildResult.built.inj (Except.ok.inj hresult)
      refine ⟨binary, paths, written, hbinary, fun hdebug => ?_, hwrite, hpublish⟩
      rw [hdebug, Bool.true_and] at hmissing
      exact Option.isSome_iff_ne_none.mpr fun hnone => hmissing (by simp [hnone])
  · simp [Attempt.on_pure] at hon

/-- The output is a file with the bytes that were emitted, with the emitted symbols beside it if they
were asked for and none otherwise. -/
structure Shipped (after : Host) (debug : Bool) (emitted : EmitResult) (output : Path)
    (symbols : Option Path) : Prop where
  binary_kept : ∃ bytes, emitted.binary = some bytes ∧ after.Holds output bytes
  symbols_kept : debug = true → ∃ bytes target, emitted.symbols = some bytes ∧ symbols = some target ∧
    after.Holds target bytes
  none_stale : debug = false → symbols = none ∧
    after.tree.find false after.directory (output.withExtension ".pdb") = .error .missing

theorem shipped_of_conclude (hfresh : w.Fresh h place)
    (hapart : options.output.withExtension ".pdb" ≠ options.output)
    (hundisturbed : ∀ bytes paths written, emitted.binary = some bytes →
      (w.write bytes (if options.debug then emitted.symbols else none)).on h =
        (.ok paths, written) → Undisturbed written names options.output paths.2)
    (hon : (conclude options names w origin emitted).on h =
      (.ok (.built output symbols warnings), h')) :
    Shipped h' options.debug emitted output symbols := by
  obtain ⟨bytes, paths, written, hbytes, hemitted, hwrite, hpublish⟩ := published_of_conclude hon
  have hclear := hundisturbed bytes paths written hbytes hwrite
  obtain ⟨rfl, hread, hread'⟩ := Workspace.on_write hfresh hwrite
  obtain ⟨rfl, hcopied, hsymbols, hstale⟩ := second_half_of_publish hclear hpublish
  refine ⟨⟨bytes, hbytes, (hcopied hapart).holds hread⟩, fun hdebug => ?_, fun hdebug => ?_⟩
  · obtain ⟨bytes, hbytes⟩ := Option.isSome_iff_exists.mp (hemitted hdebug)
    obtain ⟨htarget, hcopy⟩ := hsymbols w.symbolsPath (by simp [hdebug, hbytes])
    exact ⟨bytes, _, hbytes, htarget, hcopy.holds (hread' bytes (by simp [hdebug, hbytes]))⟩
  · exact hstale (by simp [hdebug])

/-- A publication, and a build with it, leaves what it reports, unless the output is the place of its
own symbols. -/
theorem delivers_what_is_reported (hapart : output.withExtension ".pdb" ≠ output) :
    (∀ chunking names binary symbols published h h', Undisturbed h names output symbols →
      (publish chunking names binary output symbols).on h = (.ok published, h') →
      Delivers h h' binary symbols published) ∧
    ∀ options names w origin emitted place built symbols warnings h h', options.output = output →
      Workspace.Fresh w h place →
      (∀ bytes paths written, emitted.binary = some bytes →
        (w.write bytes (if options.debug then emitted.symbols else none)).on h =
          (.ok paths, written) → Undisturbed written names output paths.2) →
      (conclude options names w origin emitted).on h =
        (.ok (.built built symbols warnings), h') →
      Shipped h' options.debug emitted built symbols := by
  constructor
  · intro chunking names binary symbols published h h' hundisturbed hon
    exact delivers_of_publish hapart hundisturbed hon
  · rintro options names w origin emitted place built symbols warnings h h' rfl hfresh
      hundisturbed hon
    exact shipped_of_conclude hfresh hapart hundisturbed hon

/-- A workspace that has been entered, and an output of an earlier build. -/
def enteredHost : Host where
  tree := ⟨[(["out".toList, "app.pdb".toList], .file [66] false),
    (["out".toList, "app.dll".toList], .file [77] false),
    (["out".toList], .directory),
    (["c".toList], .directory),
    (["c".toList, ".build".toList], .directory),
    (["c".toList, ".build".toList, "s".toList], .directory),
    (["c".toList, ".build".toList, "s".toList, "main".toList], .directory)]⟩

theorem delivers_over_stale_files :
    (∃ after, (publish .whole ⟨"1a".toList, "2b".toList⟩ "/in/main.dll" "/out/app.dll" none).on
        staleHost = (.ok ("/out/app.dll", none), after) ∧
      Delivers staleHost after "/in/main.dll" none ("/out/app.dll", none)) ∧
    (∃ after, (publish .whole ⟨"1a".toList, "2b".toList⟩ "/in/main.dll" "/out/app.dll"
        (some "/in/main.pdb")).on staleHost =
          (.ok ("/out/app.dll", some "/out/app.pdb"), after) ∧
      Delivers staleHost after "/in/main.dll" (some "/in/main.pdb")
        ("/out/app.dll", some "/out/app.pdb")) ∧
    ∃ after, (conclude ⟨"/out/app.dll", true, []⟩ ⟨"1a".toList, "2b".toList⟩ ⟨"/c", "s", "main"⟩
        ⟨{}, [], []⟩ { success := true, binary := some [77, 90], symbols := some [66, 83] }).on
          enteredHost = (.ok (.built "/out/app.dll" (some "/out/app.pdb") []), after) ∧
      Shipped after true { success := true, binary := some [77, 90], symbols := some [66, 83] }
        "/out/app.dll" (some "/out/app.pdb") := by
  obtain ⟨hpublish, hconclude⟩ := @delivers_what_is_reported "/out/app.dll" (by decide)
  have hparent : (prepared staleHost "/out/app.dll").tree.find true
      (prepared staleHost "/out/app.dll").directory (Path.parent "/out/app.dll") =
        .ok (["out".toList], .directory) := by decide +kernel
  have hway := way_of_plain hparent (by decide +kernel) (by decide +kernel)
  refine ⟨⟨_, Attempt.on_eq (by decide +kernel), hpublish _ _ _ _ _ _ _
      (undisturbed_of_clear hparent ?_) (Attempt.on_eq (by decide +kernel))⟩,
    ⟨_, Attempt.on_eq (by decide +kernel), hpublish _ _ _ _ _ _ _
      (undisturbed_of_clear hparent ?_) (Attempt.on_eq (by decide +kernel))⟩,
    _, Attempt.on_eq (by decide +kernel), hconclude _ _ _ _ _
      ["c".toList, ".build".toList, "s".toList, "main".toList] _ _ [] _ _ rfl ?_ ?_
      (Attempt.on_eq (by decide +kernel))⟩
  · exact ⟨⟨by decide, by decide⟩, hway, by decide +kernel, by simp, by simp⟩
  · refine ⟨⟨by decide, by decide⟩, hway, by decide +kernel, ?_, ?_⟩
    · intro _
      decide +kernel
    · rintro _ ⟨⟩
      decide +kernel
  · exact ⟨⟨by decide, by decide⟩, by decide, by decide +kernel, by decide +kernel,
      by decide +kernel⟩
  · rintro _ paths written ⟨⟩ hwrite
    obtain rfl : _ = written := congrArg Prod.snd hwrite
    obtain rfl : (⟨"/c/.build/s/main/main.dll", some "/c/.build/s/main/main.pdb"⟩ :
        Path × Option Path) = paths :=
      Except.ok.inj (Eq.trans (by decide +kernel) (congrArg Prod.fst hwrite))
    refine @undisturbed_of_clear ["out".toList] _ _ _ _ (by decide +kernel) ?_
    refine ⟨⟨by decide, by decide⟩, way_of_plain (by decide +kernel) (by decide +kernel)
      (by decide +kernel), by decide +kernel, ?_, ?_⟩
    · intro _
      decide +kernel
    · rintro _ ⟨⟩
      decide +kernel

end Build

end ScriptWeave
