import Mathlib.Data.List.Nodup
import Mathlib.Data.List.TakeWhile
import ScriptWeave.Proofs.Steadiness.Workspace

namespace ScriptWeave

open FileTree

/-- A name that a file can have in a directory. -/
structure IsFileName (name : Text) : Prop extends IsEntry name where
  whole : '/' ∉ name
  no_null : '\x00' ∉ name

namespace Path

variable {name stem extension : Text}

theorem cutExtension_cases (name : Text) :
    cutExtension name = (name, []) ∨ ∃ stem extension, stem ≠ [] ∧ extension ≠ [] ∧
      '.' ∉ extension ∧ name = stem ++ '.' :: extension ∧
      cutExtension name = (stem, '.' :: extension) := by
  let behind := name.reverse.takeWhile (· ≠ '.')
  let front := name.reverse.dropWhile (· ≠ '.')
  have hname : name = front.reverse ++ behind.reverse := by
    rw [← List.reverse_append, List.takeWhile_append_dropWhile, List.reverse_reverse]
  have hdots : '.' ∉ behind.reverse := by
    intro hdot
    have hkept := List.mem_takeWhile_imp (List.mem_reverse.mp hdot)
    simp at hkept
  have hcut : cutExtension name = if front.reverse.dropLast = [] ∨ behind.reverse = [] then (name, [])
      else (front.reverse.dropLast, '.' :: behind.reverse) := by
    rw [cutExtension]
    split
    · rename_i hnil
      rw [if_pos (.inl hnil)]
    · rename_i hstem
      simp only [or_iff_right (show ¬ front.reverse.dropLast = [] from hstem)]
      rfl
  by_cases hwhole : front.reverse.dropLast = [] ∨ behind.reverse = []
  · left
    rw [hcut, if_pos hwhole]
  · obtain ⟨hstem, hbehind⟩ := not_or.mp hwhole
    rw [if_neg hwhole] at hcut
    refine .inr ⟨_, _, hstem, hbehind, hdots, ?_, hcut⟩
    cases hfront : front with
    | nil => simp [hfront] at hstem
    | cons dot more =>
        have hdot : dot = '.' := by
          have hstop := List.head?_dropWhile_not (fun c => decide (c ≠ '.')) name.reverse
          rw [show name.reverse.dropWhile (fun c => decide (c ≠ '.')) = dot :: more from hfront]
            at hstop
          simpa using hstop
        rw [hfront, List.reverse_cons, hdot] at hname
        rw [List.reverse_cons, List.dropLast_concat]
        simpa using hname

theorem cutExtension_append_parts (name : Text) :
    (cutExtension name).1 ++ (cutExtension name).2 = name := by
  rcases cutExtension_cases name with hcut | ⟨stem, extension, -, -, -, hname, hcut⟩
  · rw [hcut, List.append_nil]
  · rw [hcut, hname]

theorem stem_prefix (name : Text) : (cutExtension name).1 <+: name :=
  ⟨_, cutExtension_append_parts name⟩

theorem stem_ne_nil (hname : NamesEntry name) : (cutExtension name).1 ≠ [] := by
  rcases cutExtension_cases name with hcut | ⟨stem, extension, hstem, -, -, -, hcut⟩
  · rw [hcut]
    rintro rfl
    exact absurd hname.not_mark (by decide)
  · rwa [hcut]

theorem stem_eq_iff (hstem : stem ≠ []) (hname : name ≠ stem) :
    (cutExtension name).1 = stem ↔
      ∃ extension, extension ≠ [] ∧ '.' ∉ extension ∧ name = stem ++ '.' :: extension := by
  constructor
  · rintro rfl
    rcases cutExtension_cases name with hcut | ⟨stem, extension, -, hextension, hdot, hparts, hcut⟩
    · exact absurd (by rw [hcut]) hname
    · exact ⟨extension, hextension, hdot, by rw [hcut]; exact hparts⟩
  · rintro ⟨extension, hextension, hdot, rfl⟩
    rw [cutExtension_append extension hstem hextension]
    rintro c hc rfl
    exact hdot hc

end Path

/-- Two or three dots and an extension: cut at its last dot, the name leaves a mark or a way up. -/
def LeavesDots (name : Text) : Prop :=
  ∃ extension, extension ≠ [] ∧ '.' ∉ extension ∧
    (name = "..".toList ++ extension ∨ name = "...".toList ++ extension)

theorem namesEntry_stem_iff {name : Text} (hname : NamesEntry name) :
    NamesEntry (Path.cutExtension name).1 ↔ ¬ LeavesDots name := by
  have hdot : name ≠ ".".toList := by
    rintro rfl
    exact absurd hname.not_mark (by decide)
  have hstem := Path.stem_ne_nil hname
  have hmark : isMark (Path.cutExtension name).1 = true ↔ (Path.cutExtension name).1 = ".".toList := by
    rw [isMark, Bool.or_eq_true, decide_eq_true_iff, decide_eq_true_iff]
    exact or_iff_right hstem
  have hleaves : LeavesDots name ↔
      (Path.cutExtension name).1 = ".".toList ∨ (Path.cutExtension name).1 = "..".toList := by
    rw [Path.stem_eq_iff (by simp) hdot, Path.stem_eq_iff (by simp) hname.not_up, LeavesDots]
    constructor
    · rintro ⟨extension, hextension, hclean, rfl | rfl⟩
      · exact .inl ⟨extension, hextension, hclean, rfl⟩
      · exact .inr ⟨extension, hextension, hclean, rfl⟩
    · rintro (⟨extension, hextension, hclean, rfl⟩ | ⟨extension, hextension, hclean, rfl⟩)
      · exact ⟨extension, hextension, hclean, .inl rfl⟩
      · exact ⟨extension, hextension, hclean, .inr rfl⟩
  rw [hleaves, ← hmark, not_or, Bool.not_eq_true]
  exact ⟨fun h => ⟨h.not_mark, h.not_up⟩, fun h => ⟨h.1, h.2⟩⟩

namespace Workspace

variable {w : Workspace} {name : Text}

/-- The directory of the project is one in the session directory. -/
def IsInside (w : Workspace) : Prop := w.path.parent = w.root ∧ NamesEntry w.path.name

/-- Where the document goes, which is named like the primary script. -/
def documentPath (w : Workspace) (name : Text) : Path := w.path.join (Path.ofText name)

def scratchPath (w : Workspace) : Path := w.path.join "obj"

/-- What a build names in its workspace. -/
def paths (w : Workspace) (name : Text) : List Path :=
  [w.documentPath name, w.scratchPath, w.binaryPath, w.symbolsPath]

theorem Plain.path_of_entry (hplain : w.Plain) (hproject : NamesEntry w.project) :
    w.path = ⟨w.root.anchor, w.root.names ++ [w.project]⟩ :=
  hplain.path_of_not_mark (by simp [hproject.not_mark])

theorem isInside_iff (hplain : w.Plain) : w.IsInside ↔ NamesEntry w.project := by
  by_cases hmark : isMark w.project = true
  · refine iff_of_false (fun hinside => ?_) fun hproject => by simp [hproject.not_mark] at hmark
    have hnames := congrArg (fun p : Path => p.names.length) hinside.1
    rw [hplain.path_of_mark hmark, hplain.root_eq] at hnames
    simp [Path.parent] at hnames
  · rw [IsInside, hplain.path_of_not_mark hmark, Path.parent_concat, Path.name_concat]
    exact and_iff_right rfl

theorem symbolsPath_eq (hplain : w.Plain) (hproject : w.project ≠ []) :
    w.symbolsPath = ⟨w.path.anchor, w.path.names ++ [w.project ++ ".pdb"]⟩ := by
  have hstem : Path.cutExtension (w.project ++ ".dll") = (w.project, ".dll".toList) :=
    Path.cutExtension_append "dll" hproject (by simp) (by simp)
  rw [symbolsPath, Path.withExtension, Path.stem, binaryPath_eq hplain, Path.withName, Path.name,
    List.getLast?_concat, Option.getD_some, hstem, List.dropLast_concat]

theorem paths_eq (hplain : w.Plain) (hproject : w.project ≠ []) (hname : NamesEntry name)
    (hwhole : '/' ∉ name) :
    w.paths name = [name, "obj".toList, w.project ++ ".dll", w.project ++ ".pdb"].map
      fun entry => ⟨w.path.anchor, w.path.names ++ [entry]⟩ := by
  rw [paths, documentPath, w.path.join_entry hname hwhole, binaryPath_eq hplain,
    symbolsPath_eq hplain hproject]
  rfl

theorem append_ne_scratch (t : Text) {extension : Text} (hdot : '.' ∈ extension) :
    t ++ extension ≠ "obj".toList := by
  intro hsame
  have hmem : '.' ∈ "obj".toList := hsame ▸ List.mem_append_right _ hdot
  exact absurd hmem (by decide)

theorem nodup_paths_iff (hplain : w.Plain) (hproject : w.project = (Path.cutExtension name).1)
    (hname : NamesEntry name) (hwhole : '/' ∉ name) :
    (w.paths name).Nodup ↔ name ≠ "obj".toList ∧ (Path.cutExtension name).2 ≠ ".dll".toList ∧
      (Path.cutExtension name).2 ≠ ".pdb".toList := by
  have hstem := Path.stem_ne_nil hname
  have hparts : ∀ extension : Text, name = (Path.cutExtension name).1 ++ extension ↔
      (Path.cutExtension name).2 = extension := by
    intro extension
    conv_lhs => lhs; rw [← Path.cutExtension_append_parts name]
    rw [List.append_cancel_left_eq]
  have hinjective : Function.Injective fun entry : Text =>
      (⟨w.path.anchor, w.path.names ++ [entry]⟩ : Path) := by
    intro a b hab
    simpa using hab
  rw [paths_eq hplain (hproject ▸ hstem) hname hwhole, List.nodup_map_iff hinjective, hproject]
  have hscratch : ∀ extension : Text, '.' ∈ extension →
      "obj".toList ≠ (Path.cutExtension name).1 ++ extension :=
    fun _ hdot => (append_ne_scratch _ hdot).symm
  have hdll := hscratch ".dll".toList (by decide)
  have hpdb := hscratch ".pdb".toList (by decide)
  have hends : (Path.cutExtension name).1 ++ ".dll".toList ≠
      (Path.cutExtension name).1 ++ ".pdb".toList := by simp
  simp only [List.nodup_cons, List.mem_cons, List.not_mem_nil, or_false, not_or, not_false_eq_true,
    List.nodup_nil, and_true, hparts]
  exact ⟨fun h => h.1, fun h => ⟨h, ⟨hdll, hpdb⟩, hends⟩⟩

end Workspace

end ScriptWeave
