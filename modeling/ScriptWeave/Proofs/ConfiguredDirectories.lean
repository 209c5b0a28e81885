import ScriptWeave.FileTree.Resolution
import ScriptWeave.Proofs.References
import ScriptWeave.Proofs.SettingsFields

/-!
Which assemblies the configured directories keep from a compile. An absolute directory does so for
all that lie directly in it, however either is written. A relative one does so for none: references
are absolute, and the two are compared by their names. Only a settings file under a relative path
gives such directories.
-/

namespace ScriptWeave

namespace Path

variable {d p : Path} {here : Place}

theorem isAbsolute_join : (d.join p).isAbsolute = (p.isAbsolute || d.isAbsolute) := by
  rcases p with ⟨_ | _ | _, names⟩ <;> simp [join, isAbsolute]

theorem isAbsolute_normal : p.normal.isAbsolute = p.isAbsolute := rfl

theorem seenFrom_of_isAbsolute (h : d.isAbsolute = true) : d.seenFrom here = d.normal := by
  rw [seenFrom, join, if_pos h]

end Path

theorem Reference.isProvided_iff_of_isAbsolute {directories : List Path} {p : Path}
    (hp : p.isAbsolute = true) (here : Place) :
    isProvided directories p = true ↔
      ∃ d ∈ directories, d.isAbsolute = true ∧ d.seenFrom here = p.parent.normal := by
  simp only [isProvided, List.any_eq_true, decide_eq_true_eq]
  refine exists_congr fun d => and_congr_right fun _ => ?_
  constructor
  · intro hsame
    have hd : d.isAbsolute = true := by
      rw [← Path.isAbsolute_normal, ← hsame]
      exact hp
    exact ⟨hd, (Path.seenFrom_of_isAbsolute hd).trans hsame.symm⟩
  · rintro ⟨hd, hseen⟩
    rw [← hseen, Path.seenFrom_of_isAbsolute hd]

namespace Settings

variable {e : Environment} {p d r : Path} {s : Settings} {h h' : Host}

theorem provided_of_load (hload : (load e p).on h = (.ok s, h')) (hd : d ∈ s.providedDirectories) :
    ∃ written : Path, d = p.parent.join written ∧
      d.isAbsolute = (written.isAbsolute || p.isAbsolute) := by
  obtain ⟨fields, -, hfields⟩ := exists_fields_of_load hload
  obtain ⟨t, hdirectory⟩ := mem_provided_of_ofFields hfields hd
  obtain ⟨-, written, -, rfl⟩ := directory_eq_ok_iff.mp hdirectory
  exact ⟨written, rfl, Path.isAbsolute_join⟩

/-- The assemblies in a directory of loaded settings are never given to a compile if the directory
is absolute, as all of them are under an absolute path of the file. What lies in relative ones only
is given all the same. -/
theorem filters_iff_absolute (hload : (load e p).on h = (.ok s, h')) (here : Place) :
    (∀ d ∈ s.providedDirectories, d.isAbsolute = true ∨ p.isAbsolute = false ∧
      ∃ written : Path, written.isAbsolute = false ∧ d = p.parent.join written) ∧
    (∀ r : Path, r.isAbsolute = true →
      (∃ d ∈ s.providedDirectories, d.isAbsolute = true ∧ d.seenFrom here = r.parent.normal) →
      ∀ references, r ∉ Reference.resolve s.providedDirectories references) ∧
    ∀ r : Path, r.isAbsolute = true →
      (∀ d ∈ s.providedDirectories, d.seenFrom here = r.parent.normal → d.isAbsolute = false) →
      ∀ references, r ∈ references →
        ∃ kept ∈ Reference.resolve s.providedDirectories references, kept.normal = r.normal := by
  refine ⟨fun d hd => ?_, fun r hr hholds references hmem => ?_,
    fun r hr hrelative references hmem => ?_⟩
  · obtain ⟨written, hjoin, habsolute⟩ := provided_of_load hload hd
    cases hd : d.isAbsolute with
    | true => exact .inl rfl
    | false =>
        rw [hd, eq_comm, Bool.or_eq_false_iff] at habsolute
        exact .inr ⟨habsolute.2, written, habsolute.1, hjoin⟩
  · have hprovided := (Reference.isProvided_iff_of_isAbsolute hr here).mpr hholds
    have hneeded := (Reference.isNeeded_of_mem_resolve hmem).2
    rw [Reference.isNeeded, hprovided, Bool.not_true, Bool.and_false] at hneeded
    exact Bool.false_ne_true hneeded
  · have hneeded : Reference.isNeeded s.providedDirectories r = true := by
      rw [Reference.isNeeded, hr, Bool.true_and, Bool.not_eq_true', ← Bool.not_eq_true,
        Reference.isProvided_iff_of_isAbsolute hr here]
      rintro ⟨d, hd, habsolute, hseen⟩
      rw [hrelative d hd hseen] at habsolute
      exact Bool.false_ne_true habsolute
    exact List.mem_map.mp (Reference.mem_normals_resolve_iff.mpr ⟨r, hmem, hneeded, rfl⟩)

/-- A settings file, with one directory written relative and one written absolute. -/
def configured : Host where
  tree := ⟨[(["w".toList], .directory), (["w".toList, "conf".toList], .directory),
    (["w".toList, "conf".toList, "s.json".toList], .file (Text.encode
      "\x7b\"format\": \"mergec-settings\", \"version\": 0, \"platform_dirs\": [\"../lib\"], \"host_dir\": \"/usr/lib/./net\"\x7d")
      false)]⟩
  directory := ["w".toList]

/-- Under a relative path of the file the relative directory filters nothing. -/
theorem filters_iff_absolute_two_paths :
    let e : Environment := { home := "/home" }
    let system : Path := "/usr/lib/net/a.dll"
    let own : Path := "/w/lib/b.dll"
    ∃ s s', (load e "conf/s.json").on configured = (.ok s, configured) ∧
      (load e "/w/conf/s.json").on configured = (.ok s', configured) ∧
      (∀ references, system ∉ Reference.resolve s.providedDirectories references) ∧
      (∀ references, own ∈ references →
        ∃ kept ∈ Reference.resolve s.providedDirectories references, kept.normal = own.normal) ∧
      ∀ references, own ∉ Reference.resolve s'.providedDirectories references := by
  intro e system own
  let relative : Settings :=
    { Settings.default e with
      platformDirectories := ["conf/../lib"], hostDirectory := some "/usr/lib/net" }
  let absolute : Settings := { relative with platformDirectories := ["/w/conf/../lib"] }
  have hrelative : (load e "conf/s.json").on configured = (.ok relative, configured) := by
    decide +kernel
  have habsolute : (load e "/w/conf/s.json").on configured = (.ok absolute, configured) := by
    decide +kernel
  obtain ⟨-, hdrops, hkeeps⟩ := filters_iff_absolute hrelative configured.directory
  obtain ⟨-, hdrops', -⟩ := filters_iff_absolute habsolute configured.directory
  exact ⟨relative, absolute, hrelative, habsolute, hdrops system rfl (by decide +kernel),
    hkeeps own rfl (by decide +kernel), hdrops' own rfl (by decide +kernel)⟩

end Settings

end ScriptWeave
