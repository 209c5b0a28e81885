import ScriptWeave.Proofs.Sifting
import ScriptWeave.Reference

namespace ScriptWeave.Reference

variable {directories references : List Path} {p : Path}

theorem distinctFrom_eq (seen references : List Path) :
    distinctFrom seen references = firsts Path.normal seen references := by
  induction references generalizing seen with
  | nil => rfl
  | cons p references ih => rw [distinctFrom, firsts, ih, ih]

theorem isProvided_eq_false_iff :
    isProvided directories p = false ↔ ∀ d ∈ directories, p.parent.normal ≠ d.normal := by
  simp [isProvided]

def isNeeded (directories : List Path) (p : Path) : Bool :=
  p.isAbsolute && !isProvided directories p

theorem isNeeded_iff :
    isNeeded directories p = true ↔
      p.isAbsolute = true ∧ ∀ d ∈ directories, p.parent.normal ≠ d.normal := by
  rw [isNeeded, Bool.and_eq_true, Bool.not_eq_true', isProvided_eq_false_iff]

theorem resolve_eq (directories references : List Path) :
    resolve directories references =
      firsts Path.normal [] (references.filter (isNeeded directories)) :=
  distinctFrom_eq [] _

theorem isNeeded_of_mem_resolve (h : p ∈ resolve directories references) :
    p ∈ references ∧ isNeeded directories p = true := by
  rw [resolve_eq] at h
  exact List.mem_filter.mp (firsts_sublist.subset h)

theorem mem_normals_resolve_iff {n : Path} :
    n ∈ (resolve directories references).map Path.normal ↔
      ∃ p ∈ references, isNeeded directories p = true ∧ p.normal = n := by
  rw [resolve_eq, mem_keys_firsts_iff]
  simp [and_assoc]

theorem resolve_resolve :
    resolve directories (resolve directories references) = resolve directories references := by
  have hneeded : (resolve directories references).filter (isNeeded directories) =
      resolve directories references :=
    List.filter_eq_self.mpr fun _ hp => (isNeeded_of_mem_resolve hp).2
  rw [resolve_eq directories (resolve directories references), hneeded, resolve_eq, firsts_firsts]

/-- A compile is given, in their order, the references that are absolute, that lie in none of the
directories, and of which no other spelling has been kept before. -/
theorem keeps_first_of_each (directories references : List Path) :
    resolve directories references =
      sift (fun front p => p.isAbsolute ∧ (∀ d ∈ directories, p.parent.normal ≠ d.normal) ∧
        ∀ kept ∈ resolve directories front, kept.normal ≠ p.normal) [] references ∧
    ((resolve directories references).map Path.normal).Nodup ∧
    resolve directories (resolve directories references) = resolve directories references ∧
    ∀ reordered : List Path, reordered.Perm references →
      ((resolve directories reordered).map Path.normal).Perm
        ((resolve directories references).map Path.normal) := by
  refine ⟨?_, ?_, resolve_resolve, fun reordered hperm => ?_⟩
  · rw [resolve_eq, firsts_filter]
    refine congrArg (sift · [] references) (funext₂ fun front p => ?_)
    -- Earlier spellings count whether they were kept or dropped for an even earlier one.
    have hkept : (∀ kept ∈ resolve directories front, kept.normal ≠ p.normal) ↔
        ∀ q ∈ front, isNeeded directories q = true → q.normal ≠ p.normal := by
      have hkeys : p.normal ∉ (resolve directories front).map Path.normal ↔
          ¬ ∃ q ∈ front, isNeeded directories q = true ∧ q.normal = p.normal :=
        not_congr mem_normals_resolve_iff
      simpa only [List.mem_map, not_exists, not_and] using hkeys
    simp only [hkept, isNeeded_iff, List.not_mem_nil, not_false_eq_true, true_and, and_assoc]
  · rw [resolve_eq]
    exact nodup_keys_firsts
  · rw [resolve_eq, resolve_eq]
    exact keys_firsts_perm (hperm.filter _)

example :
    resolve ["/usr/lib/net/", "/opt/host"]
      ["/usr//lib/./net/System.dll", "lib/a.dll", "/lib/b/../a.dll", "/opt/host/x/../b.dll",
        "//lib/a.dll", "/lib/a.dll", "/usr/lib/net/sub/c.dll"] =
      ["/lib/b/../a.dll", "//lib/a.dll", "/usr/lib/net/sub/c.dll"] := by
  decide +kernel

end ScriptWeave.Reference
