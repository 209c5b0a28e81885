import ScriptWeave.Proofs.FileTree.Walk

namespace ScriptWeave.FileTree

variable {t t' : FileTree} {directory place q : Place} {p : Path} {change : Bytes → Bytes}

theorem isDirectory_iff :
    t.isDirectory directory p = true ↔ ∃ q, t.find true directory p = .ok (q, .directory) := by
  rw [isDirectory]
  cases t.find true directory p with
  | error cause => simp
  | ok found =>
      obtain ⟨q, node⟩ := found
      cases node <;> simp

theorem ne_nil_of_vacant (h : t.get? q = none) : q ≠ [] := by
  rintro rfl
  simp [get?_root] at h

theorem makeDirectory_eq_ok_iff :
    t.makeDirectory directory p = .ok t' ↔
      ∃ q, t.locate false directory p = .ok q ∧ t.get? q = none ∧ t' = t.put q .directory := by
  rw [makeDirectory]
  cases t.locate false directory p with
  | error cause => simp
  | ok q =>
      dsimp only
      cases hnode : t.get? q with
      | none => simp [hnode, eq_comm]
      | some node =>
          simp only [reduceCtorEq, Except.ok.injEq, false_iff]
          rintro ⟨_, rfl, hnone, -⟩
          simp [hnode] at hnone

theorem extends_put (node : Node) (h : t.get? q = none) : Extends t (t.put q node) :=
  (updates_put t node (ne_nil_of_vacant h)).extends (.refl t) h

theorem find_put_directory (hlocate : t.locate false directory p = .ok q)
    (hvacant : t.get? q = none) :
    (t.put q .directory).find false directory p = .ok (q, .directory) :=
  find_eq_ok_iff.mpr ⟨locate_of_extends hlocate (extends_put .directory hvacant),
    get?_put_self t .directory (ne_nil_of_vacant hvacant)⟩

theorem isDirectory_of_makeDirectory (h : t.makeDirectory directory p = .ok t') :
    t'.isDirectory directory p = true := by
  obtain ⟨q, hlocate, hvacant, rfl⟩ := makeDirectory_eq_ok_iff.mp h
  exact isDirectory_iff.mpr ⟨q, find_followed (find_put_directory hlocate hvacant)⟩

theorem makeDirectory_of_isDirectory (h : t.isDirectory directory p = true) :
    t.makeDirectory directory p = .error .exists := by
  obtain ⟨q, hfind⟩ := isDirectory_iff.mp h
  obtain ⟨q', node, hunfollowed⟩ := find_unfollowed hfind
  obtain ⟨hlocate, hnode⟩ := find_eq_ok_iff.mp hunfollowed
  rw [makeDirectory, hlocate]
  dsimp only
  rw [hnode]

theorem not_endsInSlash (hp : NamesEntry p.name) : p.names.getLast? ≠ some [] := by
  intro hlast
  have hmark := hp.not_mark
  rw [Path.name, hlast] at hmark
  exact absurd hmark (by decide)

theorem modifyFile_of_vacant (hp : NamesEntry p.name)
    (hlocate : t.locate true directory p = .ok place) (hnone : t.get? place = none) :
    t.modifyFile directory p change = .ok (t.put place (.file (change []) false)) := by
  simp [modifyFile, not_endsInSlash hp, hlocate, hnone]

theorem modifyFile_of_file {content : Bytes} {runnable : Bool} (hp : NamesEntry p.name)
    (hlocate : t.locate true directory p = .ok place)
    (hnode : t.get? place = some (.file content runnable)) :
    t.modifyFile directory p change = .ok (t.put place (.file (change content) runnable)) := by
  simp [modifyFile, not_endsInSlash hp, hlocate, hnode]

theorem find_file {base : FileTree} {content : Bytes} {runnable : Bool}
    (hlocate : base.locate false directory p = .ok place) (hextends : base.Extends t)
    (hnode : t.get? place = some (.file content runnable)) :
    t.find true directory p = .ok (place, .file content runnable) :=
  find_eq_ok_iff.mpr ⟨locate_followed (locate_of_extends hlocate hextends) (by simp [hnode]), hnode⟩

theorem locate_of_modifyFile (hp : NamesEntry p.name)
    (h : t.modifyFile directory p change = .ok t') :
    ∃ q, t.locate true directory p = .ok q := by
  cases hlocate : t.locate true directory p with
  | error cause => simp [modifyFile, not_endsInSlash hp, hlocate] at h
  | ok q => exact ⟨q, rfl⟩

theorem locate_of_writeFile {content : Bytes} (h : t.writeFile directory p content = .ok t') :
    ∃ q, t.locate true directory p = .ok q ∧ t.get? q ≠ some .directory := by
  rw [writeFile, modifyFile] at h
  by_cases hslash : p.names.getLast? = some []
  · simp only [hslash, if_true] at h
    split at h <;> simp at h
  · simp only [hslash, if_false] at h
    split at h
    · simp at h
    · rename_i q hlocate
      refine ⟨q, hlocate, fun hdirectory => ?_⟩
      simp [hdirectory] at h

theorem updates_of_modifyFile (h : t.modifyFile directory p change = .ok t') :
    ∃ q n, t.locate true directory p = .ok q ∧ t.get? q ≠ some .directory ∧
      Updates t q (some n) t' ∧ n.leadsOn = false := by
  rw [modifyFile] at h
  by_cases hslash : p.names.getLast? = some []
  · simp only [hslash, if_true] at h
    split at h <;> simp at h
  · simp only [hslash, if_false] at h
    split at h
    · simp at h
    · rename_i q hlocate
      split at h
      · rename_i hvacant
        obtain rfl := Except.ok.inj h
        exact ⟨q, _, hlocate, by simp [hvacant], updates_put t _ (ne_nil_of_vacant hvacant), rfl⟩
      · rename_i content runnable hfile
        obtain rfl := Except.ok.inj h
        have hne : q ≠ [] := by
          rintro rfl
          simp [get?_root] at hfile
        exact ⟨q, _, hlocate, by simp [hfile], updates_put t _ hne, rfl⟩
      · rename_i hsink
        obtain rfl := Except.ok.inj h
        exact ⟨q, .sink, hlocate, by simp [hsink], updates_same hsink, rfl⟩
      · simp at h

theorem find_of_modifyFile (h : t.modifyFile directory p change = .ok t') :
    ∃ q n, t'.find true directory p = .ok (q, n) ∧ n ≠ .directory := by
  rw [modifyFile] at h
  by_cases hslash : p.names.getLast? = some []
  · simp only [hslash, if_true] at h
    split at h <;> simp at h
  · simp only [hslash, if_false] at h
    split at h
    · simp at h
    · rename_i q hlocate
      -- Nothing that a walk goes on from has changed, so it ends in the file as it ended before.
      have hput : ∀ content runnable, q ≠ [] → (∀ n, t.get? q = some n → n.leadsOn = false) →
          (t.put q (.file content runnable)).find true directory p =
            .ok (q, .file content runnable) := by
        intro content runnable hne hplain
        obtain ⟨haskable, hwalks⟩ := locate_eq_ok_iff.mp hlocate
        have hnode := get?_put_self t (.file content runnable) hne
        have hways : ∀ r n, n.leadsOn = true → t.get? r = some n →
            (t.put q (.file content runnable)).get? r = some n := by
          intro r n hleads hr
          have hrq : r ≠ q := by
            rintro rfl
            simp [hplain n hr] at hleads
          rwa [get?_put_of_ne t _ hrq]
        have hafter := hwalks.of_ways hways fun _ target htarget => by simp [hnode] at htarget
        exact find_eq_ok_iff.mpr ⟨locate_eq_ok_iff.mpr ⟨haskable, hafter⟩, hnode⟩
      split at h
      · rename_i hvacant
        obtain rfl := Except.ok.inj h
        exact ⟨q, _, hput _ _ (ne_nil_of_vacant hvacant) (by simp [hvacant]), nofun⟩
      · rename_i content runnable hfile
        obtain rfl := Except.ok.inj h
        have hne : q ≠ [] := by
          rintro rfl
          simp [get?_root] at hfile
        exact ⟨q, _, hput _ _ hne (by simp [hfile, Node.leadsOn]), nofun⟩
      · rename_i hsink
        obtain rfl := Except.ok.inj h
        exact ⟨q, .sink, find_eq_ok_iff.mpr ⟨hlocate, hsink⟩, nofun⟩
      · simp at h

theorem not_directory_of_find {n : Node} (h : t.find true directory p = .ok (q, n))
    (hn : n ≠ .directory) (r : Place) : t.find false directory p ≠ .ok (r, .directory) := by
  intro hdirectory
  obtain ⟨hlocate, hnode⟩ := find_eq_ok_iff.mp hdirectory
  have hfollowed := locate_followed hlocate (by simp [hnode])
  obtain ⟨hsame, hnode'⟩ := find_eq_ok_iff.mp h
  rw [hfollowed, Except.ok.injEq] at hsame
  rw [hsame, hnode', Option.some.injEq] at hnode
  exact hn hnode

theorem locate_of_rename {target : Path} (h : t.rename directory p target = .ok t') :
    ∃ q, t.locate false directory target = .ok q := by
  cases hlocate : t.locate false directory target with
  | error cause =>
      rw [rename, hlocate] at h
      cases hsource : t.find false directory p with
      | error cause => simp [hsource] at h
      | ok found => simp [hsource] at h
  | ok q => exact ⟨q, rfl⟩

theorem find_of_removeFile (h : t.removeFile directory p = .ok t') :
    ∃ place node, t.find false directory p = .ok (place, node) ∧ t' = t.erase place := by
  rw [removeFile] at h
  split at h
  · simp at h
  · simp at h
  · rename_i place node _ hfind
    exact ⟨place, node, hfind, (Except.ok.inj h).symm⟩

theorem find_of_removeFile_missing (h : t.removeFile directory p = .error .missing) :
    t.find false directory p = .error .missing := by
  rw [removeFile] at h
  split at h
  · rename_i hfind
    rw [hfind, Except.error.inj h]
  · simp at h
  · simp at h

theorem rename_file {source target : Path} {sourcePlace : Place} {content : Bytes}
    {runnable : Bool}
    (hsource : t.find false directory source = .ok (sourcePlace, .file content runnable))
    (htarget : t.locate false directory target = .ok place)
    (h : t.rename directory source target = .ok t') :
    t' = (t.erase sourcePlace).put place (.file content runnable) := by
  rw [rename, hsource, htarget] at h
  dsimp only at h
  split at h
  · simp at h
  · exact (Except.ok.inj h).symm

theorem Updates.moved {q : Place} {n : Option Node} (h : Updates t place n t')
    (hvacant : t.get? place = none) (hnil : q ≠ []) (m : Node) :
    Updates t q (some m) ((t'.erase place).put q m) := by
  intro r
  split
  · rename_i hr
    rw [hr, get?_put_self _ m hnil]
  · rename_i hr
    rw [get?_put_of_ne _ m hr, updates_erase t' (ne_nil_of_vacant hvacant) r, h r]
    split
    · rename_i hplace
      rw [hplace, hvacant]
    · rfl

end ScriptWeave.FileTree
