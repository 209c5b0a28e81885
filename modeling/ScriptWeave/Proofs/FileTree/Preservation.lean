import Mathlib.Data.List.Find
import ScriptWeave.Proofs.Directories

namespace ScriptWeave

namespace FileTree

variable {t t' : FileTree} {directory place q : Place} {p : Path} {n : Node}

theorem mem_of_get? (h : t.get? q = some n) (hq : q ≠ []) : (q, n) ∈ t.nodes := by
  rw [get?, if_neg hq, Option.map_eq_some_iff] at h
  obtain ⟨e, hfound, hn⟩ := h
  have hsame : e.1.same q = true := by simpa using List.find?_some hfound
  have he : e = (q, n) := Prod.ext (Place.same_iff.mp hsame) hn
  exact he ▸ List.mem_of_find?_eq_some hfound

theorem exists_get?_of_mem {e : Place × Node} (he : e ∈ t.nodes) : ∃ n, t.get? e.1 = some n := by
  rw [get?]
  split
  · exact ⟨_, rfl⟩
  · cases hfound : t.nodes.find? (fun e' => Place.same e'.1 e.1) with
    | none =>
        have hnot := List.find?_eq_none.mp hfound e he
        simp [Place.same_iff] at hnot
    | some e' => exact ⟨e'.2, rfl⟩

theorem nothing_in_of_not_filled (h : t.isFilled place = false) (name : Text) :
    t.get? (place ++ [name]) = none := by
  rw [Option.eq_none_iff_forall_ne_some]
  intro n hn
  have hmem := mem_of_get? hn (by simp)
  rw [isFilled, List.any_eq_false] at h
  have hin := h _ hmem
  simp [nameIn?] at hin

theorem Rooted.vacant_of_nothing_in_root (h : t.Rooted) (hempty : ∀ name, t.get? [name] = none)
    (hq : q ≠ []) : t.get? q = none := by
  obtain ⟨name, names, rfl⟩ := List.exists_cons_of_ne_nil hq
  exact h.vacant_below (hempty name) ⟨names, rfl⟩

/-! ### Moving a directory -/

section Graft

variable {source target : Place}

def movedTo (source target place : Place) : Place :=
  if source <+: place then target ++ place.drop source.length else place

theorem get?_graft_eq (hq : q ≠ []) :
    (t.graft source target).get? q =
      (t.nodes.find? fun e => Place.same (movedTo source target e.1) q).map (·.2) := by
  have hmoved : ∀ e : Place × Node, (if source.isPrefixOf e.1 then
      (target ++ e.1.drop source.length, e.2) else e) = (movedTo source target e.1, e.2) := by
    intro e
    rw [movedTo]
    by_cases hfrom : source <+: e.1
    · rw [if_pos hfrom, if_pos (List.isPrefixOf_iff_prefix.mpr hfrom)]
    · rw [if_neg hfrom, if_neg fun hpre => hfrom (List.isPrefixOf_iff_prefix.mp hpre)]
  rw [get?, if_neg hq, graft, List.find?_map, Option.map_map]
  simp only [Function.comp_def, hmoved]

theorem get?_graft_target (hsource : source ≠ []) (htarget : target ≠ []) (rest : Place)
    (hplaces : ∀ e ∈ t.nodes, ¬ target <+: e.1) :
    (t.graft source target).get? (target ++ rest) = t.get? (source ++ rest) := by
  have hmoved : ∀ e ∈ t.nodes, Place.same (movedTo source target e.1) (target ++ rest) =
      Place.same e.1 (source ++ rest) := by
    intro e he
    rw [Bool.eq_iff_iff, Place.same_iff, Place.same_iff, movedTo]
    split
    · rename_i hfrom
      obtain ⟨behind, hbehind⟩ := hfrom
      simp [← hbehind]
    · rename_i hstays
      refine iff_of_false (fun heq => hplaces e he ⟨rest, heq.symm⟩) fun heq => ?_
      exact hstays ⟨rest, heq.symm⟩
  rw [get?_graft_eq (by simp [htarget]), get?, if_neg (by simp [hsource]), List.find?_congr hmoved]

theorem get?_graft_source (hq : q ≠ []) (hbelow : ¬ target <+: q) (hfrom : source <+: q) :
    (t.graft source target).get? q = none := by
  rw [get?_graft_eq hq, Option.map_eq_none_iff, List.find?_eq_none]
  intro e _ hsame
  rw [Place.same_iff, movedTo] at hsame
  split at hsame
  · exact hbelow ⟨_, hsame⟩
  · rename_i hstays
    exact hstays (hsame ▸ hfrom)

theorem get?_graft_elsewhere (hq : q ≠ []) (hbelow : ¬ target <+: q) (hfrom : ¬ source <+: q) :
    (t.graft source target).get? q = t.get? q := by
  have hstay : ∀ e ∈ t.nodes, Place.same (movedTo source target e.1) q = Place.same e.1 q := by
    intro e _
    rw [Bool.eq_iff_iff, Place.same_iff, Place.same_iff, movedTo]
    split
    · rename_i hmoves
      exact iff_of_false (fun heq => hbelow ⟨_, heq⟩) fun heq => hfrom (heq ▸ hmoves)
    · rfl
  rw [get?_graft_eq hq, get?, if_neg hq, List.find?_congr hstay]

theorem get?_graft (hsource : source ≠ []) (htarget : target ≠ [])
    (hvacant : ∀ q, target <+: q → t.get? q = none) (q : Place) :
    (t.graft source target).get? q =
      if target <+: q then t.get? (source ++ q.drop target.length)
      else if source <+: q then none else t.get? q := by
  have hplaces : ∀ e ∈ t.nodes, ¬ target <+: e.1 := by
    intro e he hbelow
    obtain ⟨n, hn⟩ := exists_get?_of_mem he
    simp [hvacant _ hbelow] at hn
  by_cases hq : q = []
  · subst hq
    have hnot : ¬ target <+: [] := fun hbelow => htarget (List.prefix_nil.mp hbelow)
    have hnot' : ¬ source <+: [] := fun hbelow => hsource (List.prefix_nil.mp hbelow)
    rw [if_neg hnot, if_neg hnot', get?_root, get?_root]
  · split
    · rename_i hbelow
      obtain ⟨rest, rfl⟩ := hbelow
      rw [List.drop_left, get?_graft_target hsource htarget rest hplaces]
    · rename_i hbelow
      split
      · rename_i hfrom
        exact get?_graft_source hq hbelow hfrom
      · rename_i hfrom
        exact get?_graft_elsewhere hq hbelow hfrom

theorem Rooted.graft (h : t.Rooted) (hsource : source ≠ []) (htarget : target ≠ [])
    (hapart : ¬ source <+: target) (hvacant : t.get? target = none)
    (habove : t.get? target.dropLast = some .directory) : (t.graft source target).Rooted := by
  have hget := get?_graft hsource htarget fun q hq => h.vacant_below hvacant hq
  intro q name n hq
  rw [hget] at hq ⊢
  by_cases hbelow : target <+: q
  · obtain ⟨rest, rfl⟩ := hbelow
    rw [if_pos ((List.prefix_append _ _).trans (List.prefix_append _ _)), List.append_assoc,
      List.drop_left, ← List.append_assoc] at hq
    rw [if_pos (List.prefix_append _ _), List.drop_left]
    exact h _ name n hq
  · rw [if_neg hbelow]
    by_cases hlast : target <+: q ++ [name]
    · have htop : target = q ++ [name] := by
        rcases List.prefix_concat_iff.mp hlast with hsame | hin
        · exact hsame
        · exact absurd hin hbelow
      rw [htop, List.dropLast_concat] at habove
      rw [if_neg, habove]
      intro hfrom
      exact hapart (htop ▸ hfrom.trans (List.prefix_append _ _))
    · rw [if_neg hlast] at hq
      split at hq
      · simp at hq
      · rename_i hnot
        rw [if_neg, h q name n hq]
        exact fun hfrom => hnot (hfrom.trans (List.prefix_append _ _))

end Graft

/-! ### Changes -/

section Changes

variable (hrooted : t.Rooted) (hstanding : t.get? directory = some .directory)

include hrooted hstanding

theorem rooted_put {follow : Bool} (h : t.locate follow directory p = .ok q)
    (hq : t.get? q ≠ some .directory) (n : Node) : (t.put q n).Rooted :=
  hrooted.put hq ((hrooted.above_of_locate hstanding h).resolve_left hq)

theorem rooted_of_makeDirectory (h : t.makeDirectory directory p = .ok t') : t'.Rooted := by
  obtain ⟨q, hlocate, hvacant, rfl⟩ := makeDirectory_eq_ok_iff.mp h
  exact rooted_put hrooted hstanding hlocate (by simp [hvacant]) _

theorem rooted_of_makeLink {target : Text} (h : t.makeLink directory p target = .ok t') :
    t'.Rooted := by
  rw [makeLink] at h
  split at h
  · simp at h
  · rename_i q hlocate
    split at h
    · rename_i hvacant
      split at h
      · simp at h
      · obtain rfl := Except.ok.inj h
        exact rooted_put hrooted hstanding hlocate (by simp [hvacant]) _
    · simp at h

theorem rooted_of_mark {runnable : Bool} (h : t.mark directory p runnable = .ok t') :
    t'.Rooted := by
  rw [mark] at h
  split at h
  · simp at h
  · rename_i q content _ hfind
    obtain ⟨hlocate, hfile⟩ := find_eq_ok_iff.mp hfind
    obtain rfl := Except.ok.inj h
    exact rooted_put hrooted hstanding hlocate (by simp [hfile]) _
  · exact Except.ok.inj h ▸ hrooted

theorem rooted_of_modifyFile {change : Bytes → Bytes}
    (h : t.modifyFile directory p change = .ok t') : t'.Rooted := by
  rw [modifyFile] at h
  by_cases hslash : p.names.getLast? = some []
  · simp only [hslash, if_true] at h
    split at h <;> simp at h
  · simp only [hslash, if_false] at h
    split at h
    · simp at h
    · rename_i q hlocate
      split at h
      · rename_i hvacant
        obtain rfl := Except.ok.inj h
        exact rooted_put hrooted hstanding hlocate (by simp [hvacant]) _
      · rename_i content runnable hfile
        obtain rfl := Except.ok.inj h
        exact rooted_put hrooted hstanding hlocate (by simp [hfile]) _
      · exact Except.ok.inj h ▸ hrooted
      · simp at h

omit hstanding in
theorem rooted_of_removeFile (h : t.removeFile directory p = .ok t') : t'.Rooted := by
  rw [removeFile] at h
  split at h
  · simp at h
  · simp at h
  · rename_i q node hnot hfind
    obtain ⟨-, hnode⟩ := find_eq_ok_iff.mp hfind
    have hfile : t.get? q ≠ some .directory := by
      rw [hnode]
      rintro ⟨⟩
      exact hnot rfl
    have hne : q ≠ [] := fun hnil => hfile (hnil ▸ get?_root t)
    obtain rfl := Except.ok.inj h
    exact hrooted.erase hne (hrooted.nothing_in hfile)

omit hstanding in
theorem rooted_of_removeDirectory (h : t.removeDirectory directory p = .ok t') : t'.Rooted := by
  rw [removeDirectory] at h
  split at h
  · simp at h
  · rename_i q hfind
    split at h
    · simp at h
    · rename_i hempty
      split at h
      · simp at h
      · rename_i hnot
        obtain rfl := Except.ok.inj h
        exact hrooted.erase (fun hnil => hnot (.inl hnil))
          (nothing_in_of_not_filled (Bool.eq_false_iff.mpr hempty))
  · simp at h

omit hstanding in
theorem rooted_of_moveDirectory {source target : Place} (hsource : t.get? source = some .directory)
    (habove : t.get? target = some .directory ∨ t.get? target.dropLast = some .directory)
    (h : t.moveDirectory source target = .ok t') : t'.Rooted := by
  rw [moveDirectory] at h
  split at h
  · exact Except.ok.inj h ▸ hrooted
  · rename_i hapart
    split at h
    · simp at h
    · rename_i hinside
      have hnot : ¬ source <+: target := by rwa [List.isPrefixOf_iff_prefix] at hinside
      have hsource' : source ≠ [] := by
        rintro rfl
        exact hnot List.nil_prefix
      split at h
      · rename_i hvacant
        obtain rfl := Except.ok.inj h
        have hparent : t.get? target.dropLast = some .directory :=
          habove.resolve_left (by simp [hvacant])
        exact hrooted.graft hsource' (ne_nil_of_vacant hvacant) hnot hvacant hparent
      · rename_i hdirectory
        split at h
        · simp at h
        · rename_i hempty
          have hnothing := nothing_in_of_not_filled (Bool.eq_false_iff.mpr hempty)
          have htarget : target ≠ [] := by
            rintro rfl
            rw [hrooted.vacant_of_nothing_in_root hnothing hsource'] at hsource
            simp at hsource
          have herase := updates_erase t htarget
          have hparent : (t.erase target).get? target.dropLast = some .directory := by
            rw [herase.other (dropLast_ne htarget)]
            exact hrooted.dropLast hdirectory
          obtain rfl := Except.ok.inj h
          exact (hrooted.erase htarget hnothing).graft hsource' htarget hnot herase.self hparent
      · simp at h

theorem rooted_of_rename {source target : Path} (h : t.rename directory source target = .ok t') :
    t'.Rooted := by
  rw [rename] at h
  split at h
  · simp at h
  · simp at h
  · rename_i q r hfind hlocate
    exact rooted_of_moveDirectory hrooted (find_eq_ok_iff.mp hfind).2
      (hrooted.above_of_locate hstanding hlocate) h
  · rename_i q node r hnot hfind hlocate
    split at h
    · simp at h
    · rename_i hfile
      obtain ⟨-, hnode⟩ := find_eq_ok_iff.mp hfind
      have hplain : t.get? q ≠ some .directory := by
        rw [hnode]
        rintro ⟨⟩
        exact hnot rfl
      have hne : q ≠ [] := fun hnil => hplain (hnil ▸ get?_root t)
      have herase := updates_erase t hne
      have herased : (t.erase q).Rooted := hrooted.erase hne (hrooted.nothing_in hplain)
      have htarget : (t.erase q).get? r ≠ some .directory := by
        rw [herase r]
        split
        · simp
        · exact hfile
      have habove : t.get? r.dropLast = some .directory :=
        (hrooted.above_of_locate hstanding hlocate).resolve_left hfile
      obtain rfl := Except.ok.inj h
      apply herased.put htarget
      rw [herase.other, habove]
      intro hsame
      exact hplain (hsame ▸ habove)

omit hstanding in
theorem rooted_removeTree (directory : Place) (p : Path) : (t.removeTree directory p).1.Rooted := by
  rw [removeTree]
  split
  · exact hrooted
  · rename_i q hfind
    have hcleared := hrooted.clear q
    dsimp only
    split
    · exact hcleared
    · rename_i r node hagain
      split
      · exact hcleared
      · rename_i hnot
        -- The path leads to the same place again, and nothing is in it any more.
        have hsame := find_of_extends hagain (clear_extends t q)
        rw [hfind, Except.ok.injEq, Prod.mk.injEq] at hsame
        obtain ⟨rfl, -⟩ := hsame
        apply hcleared.erase fun hnil => hnot (.inl hnil)
        intro name
        rw [get?_clear, if_pos ⟨List.prefix_append _ _, by simp⟩]
  · exact hrooted

end Changes

end FileTree

theorem Action.perform_rooted {h : Host} (hsound : h.Sound) (action : Action) :
    (action.perform h).2.tree.Rooted := by
  obtain ⟨hrooted, hstanding⟩ := hsound
  have hattempt : ∀ (p : Path) (change : Except FileCause FileTree),
      (∀ t, change = .ok t → t.Rooted) → (h.attempt p change).2.tree.Rooted := by
    intro p change hchange
    cases change with
    | error cause => exact hrooted
    | ok t => exact hchange t rfl
  cases action with
  | makeDirectory p => exact hattempt _ _ fun _ => FileTree.rooted_of_makeDirectory hrooted hstanding
  | write p content => exact hattempt _ _ fun _ => FileTree.rooted_of_modifyFile hrooted hstanding
  | append p content => exact hattempt _ _ fun _ => FileTree.rooted_of_modifyFile hrooted hstanding
  | mark p runnable => exact hattempt _ _ fun _ => FileTree.rooted_of_mark hrooted hstanding
  | makeLink p target => exact hattempt _ _ fun _ => FileTree.rooted_of_makeLink hrooted hstanding
  | move source target => exact hattempt _ _ fun _ => FileTree.rooted_of_rename hrooted hstanding
  | removeFile p => exact hattempt _ _ fun _ => FileTree.rooted_of_removeFile hrooted
  | removeDirectory p => exact hattempt _ _ fun _ => FileTree.rooted_of_removeDirectory hrooted
  | removeTree p => exact FileTree.rooted_removeTree hrooted _ _
  | _ => exact hrooted

end ScriptWeave
