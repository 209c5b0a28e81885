import ScriptWeave.Proofs.FileTree.Changes

namespace ScriptWeave.FileTree

/-- The way along names. Every place but a link is passed as if it were a directory. -/
def wayNames (t : FileTree) (follow : Bool) (jump : Place → List Text → List Place) :
    Place → List Text → List Place
  | here, [] => [here]
  | here, name :: names =>
      here ::
        if isMark name then wayNames t follow jump here names
        else if name = "..".toList then wayNames t follow jump here.dropLast names
        else
          match t.get? (here ++ [name]) with
          | some (.link target) =>
              (here ++ [name]) ::
                if names = [] ∧ follow = false then []
                else
                  let target := Path.ofWritten target
                  jump (if target.isAbsolute then [] else here) (target.names ++ names)
          | _ => wayNames t follow jump (here ++ [name]) names

def way (t : FileTree) (follow : Bool) : Nat → Place → List Text → List Place
  | 0 => wayNames t follow fun _ _ => []
  | budget + 1 => wayNames t follow (way t follow budget)

def wayTo (t : FileTree) (follow : Bool) (directory : Place) (p : Path) : List Place :=
  t.way follow linkLimit (startOf directory p) p.names

section Equations

variable {t : FileTree} {follow : Bool} {budget : Nat} {here : Place} {name target : Text}
variable {names : List Text}

def wayBehind (t : FileTree) (follow : Bool) : Nat → Place → List Text → List Place
  | 0 => fun _ _ => []
  | budget + 1 => way t follow budget

theorem way_eq (budget : Nat) (here : Place) (names : List Text) :
    t.way follow budget here names = wayNames t follow (wayBehind t follow budget) here names := by
  cases budget <;> rfl

theorem way_nil (budget : Nat) (here : Place) : t.way follow budget here [] = [here] := by
  rw [way_eq, wayNames]

theorem way_mark (hname : isMark name = true) :
    t.way follow budget here (name :: names) = here :: t.way follow budget here names := by
  rw [way_eq, way_eq, wayNames, if_pos hname]

theorem way_up :
    t.way follow budget here ("..".toList :: names) =
      here :: t.way follow budget here.dropLast names := by
  rw [way_eq, way_eq, wayNames, if_neg (by decide), if_pos rfl]

theorem way_entry (hname : NamesEntry name)
    (hlink : ∀ target, t.get? (here ++ [name]) ≠ some (.link target)) :
    t.way follow budget here (name :: names) = here :: t.way follow budget (here ++ [name]) names := by
  rw [way_eq, way_eq, wayNames, if_neg (by simp [hname.not_mark]), if_neg hname.not_up]
  split
  · rename_i target hnode
    exact absurd hnode (hlink target)
  · rfl

theorem way_link (hname : NamesEntry name)
    (hlink : t.get? (here ++ [name]) = some (.link target)) :
    t.way follow budget here (name :: names) = here :: (here ++ [name]) ::
      if names = [] ∧ follow = false then []
      else wayBehind t follow budget (if (Path.ofWritten target).isAbsolute then [] else here)
        ((Path.ofWritten target).names ++ names) := by
  rw [way_eq, wayNames, if_neg (by simp [hname.not_mark]), if_neg hname.not_up, hlink]

theorem way_followed (hname : NamesEntry name)
    (hlink : t.get? (here ++ [name]) = some (.link target)) (hfollow : names = [] → follow = true) :
    t.way follow (budget + 1) here (name :: names) = here :: (here ++ [name]) ::
      t.way follow budget (if (Path.ofWritten target).isAbsolute then [] else here)
        ((Path.ofWritten target).names ++ names) := by
  rw [way_link hname hlink, if_neg (by rintro ⟨hnil, hno⟩; simp [hfollow hnil] at hno)]
  rfl

theorem way_last (hname : NamesEntry name)
    (hlink : follow = true → ∀ target, t.get? (here ++ [name]) ≠ some (.link target)) :
    t.way follow budget here [name] = [here, here ++ [name]] := by
  by_cases hnode : ∃ target, t.get? (here ++ [name]) = some (.link target)
  · obtain ⟨target, hnode⟩ := hnode
    have hfollow : follow = false := Bool.eq_false_iff.mpr fun hyes => hlink hyes target hnode
    rw [way_link hname hnode, if_pos ⟨rfl, hfollow⟩]
  · rw [way_entry hname fun target h => hnode ⟨target, h⟩, way_nil]

end Equations

section Ways

variable {t t' : FileTree} {follow : Bool} {budget : Nat} {here q : Place} {names more : List Text}

theorem mem_way_start (t : FileTree) (follow : Bool) (budget : Nat) (here : Place)
    (names : List Text) : here ∈ t.way follow budget here names := by
  rw [way_eq]
  cases names with
  | nil => rw [wayNames]; exact List.mem_singleton.mpr rfl
  | cons name names => rw [wayNames]; exact List.mem_cons_self

theorem Walks.getLast?_way (h : Walks t follow budget here names q) :
    (t.way follow budget here names).getLast? = some q := by
  have hcons : ∀ {w : List Place} (p : Place), w.getLast? = some q → (p :: w).getLast? = some q := by
    intro w p hw
    rw [List.getLast?_cons, hw]
    rfl
  induction h with
  | done budget here => rw [way_nil]; rfl
  | mark hname _ ih =>
      rw [way_mark hname]
      exact hcons _ (ih hcons)
  | up _ ih =>
      rw [way_up]
      exact hcons _ (ih hcons)
  | directory hname hnode _ ih =>
      rw [way_entry hname.toNamesEntry (by simp [hnode])]
      exact hcons _ (ih hcons)
  | link hname hnode hfollow _ ih =>
      rw [way_followed hname.toNamesEntry hnode hfollow]
      exact hcons _ (hcons _ (ih hcons))
  | last hname _ hlink =>
      rw [way_last hname.toNamesEntry hlink]
      rfl

theorem Walks.mem_way (h : Walks t follow budget here names q) :
    q ∈ t.way follow budget here names :=
  List.mem_of_getLast? h.getLast?_way

theorem way_congr (h : ∀ p ∈ t.way follow budget here names, ∀ target,
      t'.get? p = some (.link target) ↔ t.get? p = some (.link target)) :
    t'.way follow budget here names = t.way follow budget here names := by
  induction budget, here, names using walk_induction t with
  | done budget here => rw [way_nil, way_nil]
  | mark budget here name names hname ih =>
      rw [way_mark hname] at h ⊢
      rw [way_mark hname, ih fun p hp => h p (List.mem_cons_of_mem _ hp)]
  | up budget here names ih =>
      rw [way_up] at h ⊢
      rw [way_up, ih fun p hp => h p (List.mem_cons_of_mem _ hp)]
  | entry budget here name names hname hlink ih =>
      rw [way_entry hname hlink] at h ⊢
      have hlink' : ∀ target, t'.get? (here ++ [name]) ≠ some (.link target) := by
        intro target htarget
        exact hlink target ((h _ (List.mem_cons_of_mem _ (mem_way_start ..)) target).mp htarget)
      rw [way_entry hname hlink', ih fun p hp => h p (List.mem_cons_of_mem _ hp)]
  | link budget here name names target hname hlink ih =>
      rw [way_link hname hlink] at h ⊢
      have hlink' : t'.get? (here ++ [name]) = some (.link target) :=
        (h _ (List.mem_cons_of_mem _ List.mem_cons_self) target).mpr hlink
      rw [way_link hname hlink']
      split
      · rfl
      · rename_i hon
        rw [if_neg hon] at h
        cases budget with
        | zero => rfl
        | succ less =>
            have hbehind := ih less rfl _ _ fun p hp =>
              h p (List.mem_cons_of_mem _ (List.mem_cons_of_mem _ hp))
            simp only [wayBehind, hbehind]

theorem walk_congr (h : ∀ p ∈ t.way follow budget here names, t'.get? p = t.get? p) :
    t'.walk follow budget here names = t.walk follow budget here names := by
  induction budget, here, names using walk_induction t with
  | done budget here => rw [walk_nil, walk_nil]
  | mark budget here name names hname ih =>
      rw [way_mark hname] at h
      rw [walk_mark hname, walk_mark hname, ih fun p hp => h p (List.mem_cons_of_mem _ hp)]
  | up budget here names ih =>
      rw [way_up] at h
      rw [walk_up, walk_up, ih fun p hp => h p (List.mem_cons_of_mem _ hp)]
  | entry budget here name names hname hlink ih =>
      rw [way_entry hname hlink] at h
      have hnode : t'.get? (here ++ [name]) = t.get? (here ++ [name]) :=
        h _ (List.mem_cons_of_mem _ (mem_way_start ..))
      have hmore := ih fun p hp => h p (List.mem_cons_of_mem _ hp)
      by_cases hlong : nameLimit < (Text.encode name).length
      · rw [walk_long hname hlong, walk_long hname hlong]
      · have hentry : IsEntry name := ⟨hname, Nat.le_of_not_lt hlong⟩
        rw [walk_entry hentry hlink, walk_entry hentry (by rw [hnode]; exact hlink), hnode, hmore]
  | link budget here name names target hname hlink ih =>
      rw [way_link hname hlink] at h
      have hnode : t'.get? (here ++ [name]) = some (.link target) :=
        (h _ (List.mem_cons_of_mem _ List.mem_cons_self)).trans hlink
      by_cases hlong : nameLimit < (Text.encode name).length
      · rw [walk_long hname hlong, walk_long hname hlong]
      · have hentry : IsEntry name := ⟨hname, Nat.le_of_not_lt hlong⟩
        rw [walk_link hentry hlink, walk_link hentry hnode]
        split
        · rfl
        · rename_i hon
          rw [if_neg hon] at h
          cases budget with
          | zero => rfl
          | succ less =>
              exact ih less rfl _ _ fun p hp =>
                h p (List.mem_cons_of_mem _ (List.mem_cons_of_mem _ hp))

theorem way_subset {follow' : Bool} (h : follow = true → follow' = true ∨ more ≠ []) :
    t.way follow budget here names ⊆ t.way follow' budget here (names ++ more) := by
  induction budget, here, names using walk_induction t with
  | done budget here =>
      intro p hp
      rw [way_nil] at hp
      exact List.mem_singleton.mp hp ▸ mem_way_start ..
  | mark budget here name names hname ih =>
      rw [List.cons_append, way_mark hname, way_mark hname]
      exact List.cons_subset_cons _ ih
  | up budget here names ih =>
      rw [List.cons_append, way_up, way_up]
      exact List.cons_subset_cons _ ih
  | entry budget here name names hname hlink ih =>
      rw [List.cons_append, way_entry hname hlink, way_entry hname hlink]
      exact List.cons_subset_cons _ ih
  | link budget here name names target hname hlink ih =>
      rw [List.cons_append, way_link hname hlink, way_link hname hlink]
      apply List.cons_subset_cons
      apply List.cons_subset_cons
      split
      · exact List.nil_subset _
      · rename_i hon
        have hon' : ¬(names ++ more = [] ∧ follow' = false) := by
          rintro ⟨hnil, hno⟩
          obtain ⟨rfl, rfl⟩ := List.append_eq_nil_iff.mp hnil
          have hfollow : follow = true := Bool.of_not_eq_false fun hfalse => hon ⟨rfl, hfalse⟩
          simp [hno] at h
          simp [h] at hfollow
        rw [if_neg hon', ← List.append_assoc]
        cases budget with
        | zero => exact List.nil_subset _
        | succ less => exact ih less rfl _ _

theorem wayTo_subset (t : FileTree) (directory : Place) (p : Path) :
    t.wayTo false directory p ⊆ t.wayTo true directory p := by
  intro q hq
  have hmore : q ∈ t.way true linkLimit (startOf directory p) (p.names ++ []) :=
    way_subset (by simp) hq
  rwa [List.append_nil] at hmore

end Ways

/-! ### Walks that are stopped -/

section Stopped

variable {t t' : FileTree} {follow : Bool} {budget : Nat} {here q directory : Place}
variable {names : List Text} {p : Path} {cause : FileCause} {stopped : Place → Prop}

/-- A walk that comes to this place ends there, and one that would go on fails for this cause. -/
def Stops (t : FileTree) (cause : FileCause) (q : Place) : Prop :=
  ∀ follow budget here name names, IsEntry name → here ++ [name] = q →
    t.walk follow budget here (name :: names) = if names = [] then .ok q else .error cause

theorem stops_of_vacant (h : t.get? q = none) : t.Stops .missing q := by
  rintro follow budget here name names hname rfl
  rw [walk_entry hname (by simp [h]), h]

/-- Where every place on the way is as it was or stops a walk, the walk ends where it ended or is
stopped. A link is passed only if it is followed. -/
theorem Walks.of_stopped (hstops : ∀ r, stopped r → t'.Stops cause r)
    (h : Walks t follow budget here names q)
    (hway : ∀ r ∈ t.way follow budget here names, t'.get? r = t.get? r ∨ stopped r) :
    t'.walk follow budget here names = .error cause ∨
      ∃ r, t'.walk follow budget here names = .ok r ∧ (r = q ∨ follow = true ∧ stopped r) := by
  induction h with
  | done budget here => exact .inr ⟨here, walk_nil _ _, .inl rfl⟩
  | mark hname _ ih =>
      rw [way_mark hname] at hway
      rw [walk_mark hname]
      exact ih fun r hr => hway r (List.mem_cons_of_mem _ hr)
  | up _ ih =>
      rw [way_up] at hway
      rw [walk_up]
      exact ih fun r hr => hway r (List.mem_cons_of_mem _ hr)
  | @directory budget here q name names hname hnode hmore ih =>
      rw [way_entry hname.toNamesEntry (by simp [hnode])] at hway
      rcases hway _ (List.mem_cons_of_mem _ (mem_way_start ..)) with hsame | hstopped
      · rw [walk_directory hname (hsame.trans hnode)]
        exact ih fun r hr => hway r (List.mem_cons_of_mem _ hr)
      · rw [hstops _ hstopped _ _ _ _ _ hname rfl]
        -- What stops a walk does not stop it from ending there.
        by_cases hnil : names = []
        · subst hnil
          have hwalk := hmore.walk
          rw [walk_nil] at hwalk
          exact .inr ⟨_, if_pos rfl, .inl (Except.ok.inj hwalk)⟩
        · exact .inl (if_neg hnil)
  | @link budget here q name target names hname hnode hfollow _ ih =>
      rw [way_followed hname.toNamesEntry hnode hfollow] at hway
      rcases hway _ (List.mem_cons_of_mem _ List.mem_cons_self) with hsame | hstopped
      · rw [walk_followed hname (hsame.trans hnode) hfollow]
        exact ih fun r hr => hway r (List.mem_cons_of_mem _ (List.mem_cons_of_mem _ hr))
      · rw [hstops _ hstopped _ _ _ _ _ hname rfl]
        by_cases hnil : names = []
        · exact .inr ⟨_, if_pos hnil, .inr ⟨hfollow hnil, hstopped⟩⟩
        · exact .inl (if_neg hnil)
  | @last budget here name hname hdirectory hlink =>
      have hmem : here ++ [name] ∈ t.way follow budget here [name] :=
        (Walks.last hname hdirectory hlink).mem_way
      rcases hway _ hmem with hsame | hstopped
      · have hwalks : Walks t' follow budget here [name] (here ++ [name]) :=
          .last hname (hsame ▸ hdirectory) (hsame ▸ hlink)
        exact .inr ⟨_, hwalks.walk, .inl rfl⟩
      · exact .inr ⟨_, hstops _ hstopped _ _ _ _ _ hname rfl, .inl rfl⟩

theorem locate_of_stopped (hstops : ∀ r, stopped r → t'.Stops cause r)
    (h : t.locate follow directory p = .ok q)
    (hway : ∀ r ∈ t.wayTo follow directory p, t'.get? r = t.get? r ∨ stopped r) :
    t'.locate follow directory p = .error cause ∨
      ∃ r, t'.locate follow directory p = .ok r ∧ (r = q ∨ follow = true ∧ stopped r) := by
  obtain ⟨⟨hnull, hlong⟩, hwalks⟩ := locate_eq_ok_iff.mp h
  rw [locate, if_neg (Bool.eq_false_iff.mp hnull), if_neg (Bool.eq_false_iff.mp hlong)]
  exact hwalks.of_stopped hstops hway

end Stopped

/-! ### Growth -/

def GrowsIn (places : Place → Prop) (t t' : FileTree) : Prop :=
  ∀ q, t'.get? q = t.get? q ∨ (places q ∧ t.get? q = none ∧ t'.get? q = some .directory)

section Growth

variable {places places' : Place → Prop} {t t' t'' : FileTree} {q directory : Place} {p : Path}

theorem GrowsIn.refl (places : Place → Prop) (t : FileTree) : GrowsIn places t t :=
  fun _ => .inl rfl

theorem GrowsIn.mono (h : GrowsIn places t t') (hplaces : ∀ q, places q → places' q) :
    GrowsIn places' t t' := by
  intro q
  rcases h q with hsame | ⟨hq, hmade⟩
  · exact .inl hsame
  · exact .inr ⟨hplaces q hq, hmade⟩

theorem GrowsIn.trans (h : GrowsIn places t t') (h' : GrowsIn places t' t'') :
    GrowsIn places t t'' := by
  intro q
  rcases h q with hsame | ⟨hq, hnone, hmade⟩
  · rcases h' q with hsame' | ⟨hq, hnone, hmade⟩
    · exact .inl (hsame'.trans hsame)
    · exact .inr ⟨hq, hsame ▸ hnone, hmade⟩
  · rcases h' q with hsame' | ⟨-, hnone', -⟩
    · exact .inr ⟨hq, hnone, hsame'.trans hmade⟩
    · simp [hmade] at hnone'

theorem GrowsIn.extends (h : GrowsIn places t t') : Extends t t' := by
  intro q n hq
  rcases h q with hsame | ⟨-, hnone, -⟩
  · exact hsame.trans hq
  · simp [hq] at hnone

theorem growsIn_put (h : t.get? q = none) : GrowsIn (· = q) t (t.put q .directory) := by
  intro r
  rw [updates_put t .directory (ne_nil_of_vacant h) r]
  split
  · rename_i hr
    exact .inr ⟨hr, hr ▸ h, rfl⟩
  · exact .inl rfl

theorem GrowsIn.link_iff (h : GrowsIn places t t') (q : Place) (target : Text) :
    t'.get? q = some (.link target) ↔ t.get? q = some (.link target) := by
  rcases h q with hsame | ⟨-, hnone, hmade⟩
  · rw [hsame]
  · simp [hnone, hmade]

theorem GrowsIn.wayTo (h : GrowsIn places t t') (follow : Bool) (directory : Place) (p : Path) :
    t'.wayTo follow directory p = t.wayTo follow directory p :=
  way_congr fun q _ target => h.link_iff q target

theorem growsIn_makeDirectory (h : t.makeDirectory directory p = .ok t') :
    GrowsIn (· ∈ t.wayTo false directory p) t t' := by
  obtain ⟨q, hlocate, hnone, rfl⟩ := makeDirectory_eq_ok_iff.mp h
  apply (growsIn_put hnone).mono
  rintro _ rfl
  exact (locate_eq_ok_iff.mp hlocate).2.mem_way

end Growth

end ScriptWeave.FileTree
