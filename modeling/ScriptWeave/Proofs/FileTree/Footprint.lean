import ScriptWeave.Proofs.FileTree.Rooted

namespace ScriptWeave.FileTree

def AgreeOn (places : Place → Prop) (t t' : FileTree) : Prop :=
  ∀ p, places p → t'.get? p = t.get? p

section Agree

variable {t t' t'' u u' : FileTree} {places writes : Place → Prop} {follow : Bool}
variable {directory q : Place} {p : Path}

theorem AgreeOn.mono {places' : Place → Prop} (h : AgreeOn places' t t')
    (hplaces : ∀ q, places q → places' q) : AgreeOn places t t' :=
  fun q hq => h q (hplaces q hq)

theorem locate_agree (h : AgreeOn (· ∈ t.wayTo follow directory p) t t') :
    t'.locate follow directory p = t.locate follow directory p := by
  rw [locate, locate, walk_congr h]

theorem mem_wayTo (h : t.locate follow directory p = .ok q) : q ∈ t.wayTo follow directory p :=
  (locate_eq_ok_iff.mp h).2.mem_way

theorem find_agree (h : AgreeOn (· ∈ t.wayTo follow directory p) t t') :
    t'.find follow directory p = t.find follow directory p := by
  rw [find, find, locate_agree h]
  cases hlocate : t.locate follow directory p with
  | error cause => rfl
  | ok q =>
      dsimp only
      rw [h q (mem_wayTo hlocate)]

theorem exists?_agree (h : AgreeOn (· ∈ t.wayTo true directory p) t t') :
    t'.exists? directory p = t.exists? directory p := by
  rw [exists?, exists?, find_agree h]

theorem isDirectory_agree (h : AgreeOn (· ∈ t.wayTo true directory p) t t') :
    t'.isDirectory directory p = t.isDirectory directory p := by
  rw [isDirectory, isDirectory, find_agree h]

theorem readFile_agree (h : AgreeOn (· ∈ t.wayTo true directory p) t t') :
    t'.readFile directory p = t.readFile directory p := by
  rw [readFile, readFile, find_agree h]

/-- A change fails on both trees for one cause, or makes the same of these places on both, and
nothing of any other place. -/
inductive SameChange (writes : Place → Prop) (t t' : FileTree) :
    Except FileCause FileTree → Except FileCause FileTree → Prop
  | failed (cause : FileCause) : SameChange writes t t' (.error cause) (.error cause)
  | changed {u u' : FileTree} (inside : AgreeOn writes u u')
      (outside : ∀ p, ¬ writes p → u.get? p = t.get? p ∧ u'.get? p = t'.get? p) :
      SameChange writes t t' (.ok u) (.ok u')

theorem sameChange_updates {n : Option Node} (hu : Updates t q n u) (hu' : Updates t' q n u')
    (hq : ∀ p, writes p ↔ p = q) : SameChange writes t t' (.ok u) (.ok u') := by
  refine .changed (fun p hp => ?_) fun p hp => ?_
  · obtain rfl := (hq p).mp hp
    rw [hu.self, hu'.self]
  · have hne : p ≠ q := fun hpq => hp ((hq p).mpr hpq)
    exact ⟨hu.other hne, hu'.other hne⟩

theorem sameChange_moved {r : Place} (node : Node) (hq : q ≠ []) (hr : r ≠ [])
    (hwrites : ∀ p, writes p ↔ p = q ∨ p = r) :
    SameChange writes t t' (.ok ((t.erase q).put r node)) (.ok ((t'.erase q).put r node)) := by
  have hput := updates_put (t.erase q) node hr
  have hput' := updates_put (t'.erase q) node hr
  have herase := updates_erase t hq
  have herase' := updates_erase t' hq
  refine .changed (fun p hp => ?_) fun p hp => ?_
  · rw [hput p, hput' p]
    split
    · rfl
    · rename_i hpr
      have hpq : p = q := ((hwrites p).mp hp).resolve_right hpr
      rw [hpq, herase.self, herase'.self]
  · have hpq : p ≠ q := fun heq => hp ((hwrites p).mpr (.inl heq))
    have hpr : p ≠ r := fun heq => hp ((hwrites p).mpr (.inr heq))
    exact ⟨(hput.other hpr).trans (herase.other hpq), (hput'.other hpr).trans (herase'.other hpq)⟩

theorem eq_ok_iff {result : Except FileCause Place} (h : result = .ok q) (r : Place) :
    result = .ok r ↔ r = q := by
  rw [h, Except.ok.injEq, eq_comm]

theorem makeDirectory_agree (h : AgreeOn (· ∈ t.wayTo false directory p) t t') :
    SameChange (t.locate false directory p = .ok ·) t t' (t.makeDirectory directory p)
      (t'.makeDirectory directory p) := by
  rw [makeDirectory, makeDirectory, locate_agree h]
  cases hlocate : t.locate false directory p with
  | error cause => exact .failed cause
  | ok q =>
      have hnode := h q (mem_wayTo hlocate)
      dsimp only
      rw [hnode]
      cases hvacant : t.get? q with
      | some node => exact .failed .exists
      | none =>
          have hvacant' := hnode.trans hvacant
          exact sameChange_updates (updates_put t .directory (ne_nil_of_vacant hvacant))
            (updates_put t' .directory (ne_nil_of_vacant hvacant')) (by simp [eq_comm])

theorem removeFile_agree (h : AgreeOn (· ∈ t.wayTo false directory p) t t') :
    SameChange (t.locate false directory p = .ok ·) t t' (t.removeFile directory p)
      (t'.removeFile directory p) := by
  rw [removeFile, removeFile, find_agree h]
  cases hfind : t.find false directory p with
  | error cause => exact .failed cause
  | ok found =>
      obtain ⟨q, node⟩ := found
      obtain ⟨hlocate, hnode⟩ := find_eq_ok_iff.mp hfind
      have hne : node ≠ .directory → q ≠ [] := by
        rintro hnot rfl
        rw [get?_root, Option.some.injEq] at hnode
        exact hnot hnode.symm
      cases node with
      | directory => exact .failed .isDirectory
      | _ =>
          have hq : q ≠ [] := hne (by simp)
          exact sameChange_updates (updates_erase t hq) (updates_erase t' hq) (eq_ok_iff hlocate)

theorem wayTo_parent_subset (hslash : p.names.getLast? = some []) :
    t.wayTo true directory p.parent ⊆ t.wayTo true directory p := by
  have hnames : p.names = p.names.dropLast ++ [[]] := by
    obtain ⟨names, hnames⟩ := List.getLast?_eq_some_iff.mp hslash
    rw [hnames, List.dropLast_concat]
  intro q hq
  have hmore : q ∈ t.way true linkLimit (startOf directory p) (p.names.dropLast ++ [[]]) :=
    way_subset (fun _ => .inl rfl) hq
  rwa [← hnames] at hmore

theorem modifyFile_agree (change : Bytes → Bytes)
    (h : AgreeOn (· ∈ t.wayTo true directory p) t t') :
    SameChange (t.locate true directory p = .ok ·) t t' (t.modifyFile directory p change)
      (t'.modifyFile directory p change) := by
  rw [modifyFile, modifyFile]
  by_cases hslash : p.names.getLast? = some []
  · simp only [hslash, if_true]
    rw [locate_agree (h.mono fun q hq => wayTo_parent_subset hslash hq)]
    cases t.locate true directory p.parent with
    | error cause => exact .failed cause
    | ok q => exact .failed .isDirectory
  · simp only [hslash, if_false]
    rw [locate_agree h]
    cases hlocate : t.locate true directory p with
    | error cause => exact .failed cause
    | ok q =>
        have hnode := h q (mem_wayTo hlocate)
        have hput : ∀ node, (∀ m, t.get? q = some m → m ≠ .directory) →
            SameChange (fun r => (.ok q : Except FileCause Place) = .ok r) t t' (.ok (t.put q node))
              (.ok (t'.put q node)) := by
          intro node hfile
          have hne : q ≠ [] := fun hnil => hfile .directory (hnil ▸ get?_root t) rfl
          exact sameChange_updates (updates_put t node hne) (updates_put t' node hne)
            (by simp [eq_comm])
        dsimp only
        rw [hnode]
        cases hfound : t.get? q with
        | none => exact hput _ (by simp [hfound])
        | some node =>
            cases node with
            | file content runnable => exact hput _ (by simp [hfound])
            | sink =>
                refine .changed (fun r hr => ?_) fun _ _ => ⟨rfl, rfl⟩
                rw [← Except.ok.inj hr, hnode]
            | directory => exact .failed .isDirectory
            | link target => exact .failed .isDirectory

theorem rename_agree {source target : Path}
    (hplain : ∀ q, t.find false directory source ≠ .ok (q, .directory))
    (hsource : AgreeOn (· ∈ t.wayTo false directory source) t t')
    (htarget : AgreeOn (· ∈ t.wayTo false directory target) t t') :
    SameChange (fun q => t.locate false directory source = .ok q ∨
        t.locate false directory target = .ok q) t t' (t.rename directory source target)
      (t'.rename directory source target) := by
  rw [rename, rename, find_agree hsource, locate_agree htarget]
  cases hfind : t.find false directory source with
  | error cause => exact .failed cause
  | ok found =>
      obtain ⟨q, node⟩ := found
      obtain ⟨hlocate, hnode⟩ := find_eq_ok_iff.mp hfind
      cases hlocate' : t.locate false directory target with
      | error cause => exact .failed cause
      | ok r =>
          have hsame := htarget r (mem_wayTo hlocate')
          have hne : q ≠ [] := by
            rintro rfl
            rw [get?_root, Option.some.injEq] at hnode
            exact hplain [] (hnode ▸ hfind)
          cases node with
          | directory => exact absurd hfind (hplain q)
          | _ =>
              dsimp only
              rw [hsame]
              split
              · exact .failed .isDirectory
              · rename_i hfile
                have hne' : r ≠ [] := fun hnil => hfile (hnil ▸ get?_root t)
                exact sameChange_moved _ hne hne' fun p => by rw [eq_ok_iff hlocate, eq_ok_iff rfl]

theorem removeTree_of_clear {place : Place}
    (hfind : t.find false directory p = .ok (place, .directory))
    (hfind' : t'.find false directory p = .ok (place, .directory))
    (hclear : AgreeOn (fun _ => True) (t.clear place) (t'.clear place)) :
    (t'.removeTree directory p).2 = (t.removeTree directory p).2 ∧
      AgreeOn (fun _ => True) (t.removeTree directory p).1 (t'.removeTree directory p).1 := by
  have hagain : (t'.clear place).find false directory p = (t.clear place).find false directory p :=
    find_agree (hclear.mono fun _ _ => trivial)
  rw [removeTree, removeTree, hfind, hfind']
  dsimp only
  rw [hagain]
  cases (t.clear place).find false directory p with
  | error cause => exact ⟨rfl, hclear⟩
  | ok found =>
      obtain ⟨q, node⟩ := found
      dsimp only
      split
      · exact ⟨rfl, hclear⟩
      · rename_i hnot
        have hne : q ≠ [] := fun hnil => hnot (.inl hnil)
        refine ⟨rfl, fun r hr => ?_⟩
        rw [updates_erase _ hne r, updates_erase _ hne r, hclear r hr]

theorem removeTree_same (directory : Place) (p : Path) (h : AgreeOn (fun _ => True) t t') :
    (t'.removeTree directory p).2 = (t.removeTree directory p).2 ∧
      AgreeOn (fun _ => True) (t.removeTree directory p).1 (t'.removeTree directory p).1 := by
  have hfind : t'.find false directory p = t.find false directory p :=
    find_agree (h.mono fun _ _ => trivial)
  cases hresult : t.find false directory p with
  | error cause =>
      rw [removeTree, removeTree, hfind, hresult]
      exact ⟨rfl, h⟩
  | ok found =>
      obtain ⟨place, node⟩ := found
      rw [hresult] at hfind
      cases node with
      | directory =>
          apply removeTree_of_clear hresult hfind
          intro q hq
          rw [get?_clear, get?_clear, h q hq]
      | _ =>
          rw [removeTree, removeTree, hfind, hresult]
          exact ⟨rfl, h⟩

end Agree

end ScriptWeave.FileTree
