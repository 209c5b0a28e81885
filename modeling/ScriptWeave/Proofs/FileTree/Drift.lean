import ScriptWeave.Proofs.FileTree.Footprint

namespace ScriptWeave.FileTree

/-- What others may make of a tree. Where a place is kept they may not even make a directory. -/
def Drift (kept foreign : Place → Prop) (t t' : FileTree) : Prop :=
  ∀ p, foreign p ∨ t'.get? p = t.get? p ∨
    (¬ kept p ∧ t.get? p = none ∧ t'.get? p = some .directory)

def Firm (kept foreign : Place → Prop) (t : FileTree) (p : Place) : Prop :=
  ¬ foreign p ∧ (kept p ∨ (t.get? p).isSome)

section Drift

variable {kept foreign kept' foreign' : Place → Prop} {t t' t'' : FileTree} {p directory : Place}

theorem Drift.refl (kept foreign : Place → Prop) (t : FileTree) : Drift kept foreign t t :=
  fun _ => .inr (.inl rfl)

theorem Drift.trans (h : Drift kept foreign t t') (h' : Drift kept foreign t' t'') :
    Drift kept foreign t t'' := by
  intro p
  rcases h p with hforeign | hsame | ⟨hfree, hnone, hmade⟩
  · exact .inl hforeign
  · rcases h' p with hforeign | hsame' | ⟨hfree, hnone, hmade⟩
    · exact .inl hforeign
    · exact .inr (.inl (hsame'.trans hsame))
    · exact .inr (.inr ⟨hfree, hsame ▸ hnone, hmade⟩)
  · rcases h' p with hforeign | hsame' | ⟨-, hnone', -⟩
    · exact .inl hforeign
    · exact .inr (.inr ⟨hfree, hnone, hsame'.trans hmade⟩)
    · simp [hmade] at hnone'

theorem Drift.mono (h : Drift kept foreign t t') (hkept : ∀ p, kept' p → kept p)
    (hforeign : ∀ p, foreign p → foreign' p) : Drift kept' foreign' t t' := by
  intro p
  rcases h p with hp | hsame | ⟨hfree, hmade⟩
  · exact .inl (hforeign p hp)
  · exact .inr (.inl hsame)
  · exact .inr (.inr ⟨fun hp => hfree (hkept p hp), hmade⟩)

theorem Drift.firm (h : Drift kept foreign t t') (hp : Firm kept foreign t p) :
    t'.get? p = t.get? p := by
  obtain ⟨hown, hfirm⟩ := hp
  rcases h p with hforeign | hsame | ⟨hfree, hnone, -⟩
  · exact absurd hforeign hown
  · exact hsame
  · rcases hfirm with hkept | hthere
    · exact absurd hkept hfree
    · simp [hnone] at hthere

theorem Drift.stays {n : Node} (h : Drift kept foreign t t') (hp : ¬ foreign p)
    (hnode : t.get? p = some n) : t'.get? p = some n :=
  (h.firm ⟨hp, .inr (by simp [hnode])⟩).trans hnode

theorem Drift.agreeOn {places : Place → Prop} (h : Drift kept foreign t t')
    (hplaces : ∀ p, places p → Firm kept foreign t p) : AgreeOn places t t' :=
  fun p hp => h.firm (hplaces p hp)

theorem Drift.link_iff (h : Drift kept foreign t t') (hp : ¬ foreign p) (target : Text) :
    t'.get? p = some (.link target) ↔ t.get? p = some (.link target) := by
  rcases h p with hforeign | hsame | ⟨-, hnone, hmade⟩
  · exact absurd hforeign hp
  · rw [hsame]
  · simp [hnone, hmade]

theorem Drift.wayTo {follow : Bool} {path : Path} (h : Drift kept foreign t t')
    (hway : ∀ q ∈ t.wayTo follow directory path, ¬ foreign q) :
    t'.wayTo follow directory path = t.wayTo follow directory path :=
  way_congr fun q hq target => h.link_iff (hway q hq) target

theorem Drift.standing (h : Drift kept foreign t t') (hp : ¬ foreign p)
    (hdirectory : t.get? p = some .directory) : t'.get? p = some .directory :=
  h.stays hp hdirectory

theorem GrowsIn.drift {places : Place → Prop} (h : GrowsIn places t t')
    (hplaces : ∀ p, places p → ¬ kept p) : Drift kept foreign t t' := by
  intro p
  rcases h p with hsame | ⟨hp, hmade⟩
  · exact .inr (.inl hsame)
  · exact .inr (.inr ⟨hplaces p hp, hmade⟩)

end Drift

section Ways

variable {t t' : FileTree} {follow : Bool} {budget : Nat} {here q directory : Place}
variable {names : List Text} {p : Path} {n : Node}

theorem present_of_find (hrooted : t.Rooted) (hstanding : t.get? directory = some .directory)
    (h : t.find follow directory p = .ok (q, n)) :
    ∀ r ∈ t.wayTo follow directory p, (t.get? r).isSome := by
  obtain ⟨hlocate, hnode⟩ := find_eq_ok_iff.mp h
  have hwalks := (locate_eq_ok_iff.mp hlocate).2
  intro r hr
  rcases hwalks.leadsOn_or_end hrooted (get?_start hstanding) r hr with rfl | ⟨m, hm, -⟩
  · simp [hnode]
  · simp [hm]

theorem present_of_readFile {content : Bytes} (hrooted : t.Rooted)
    (hstanding : t.get? directory = some .directory) (h : t.readFile directory p = .ok content) :
    ∀ r ∈ t.wayTo true directory p, (t.get? r).isSome := by
  cases hfind : t.find true directory p with
  | error cause => simp [readFile, hfind] at h
  | ok found => exact present_of_find hrooted hstanding hfind

theorem Walks.of_way (h : Walks t follow budget here names q)
    (hway : ∀ p ∈ t.way follow budget here names,
      t'.get? p = t.get? p ∨ (t.get? p = none ∧ t'.get? p = some .directory)) :
    Walks t' follow budget here names q := by
  induction h with
  | done budget here => exact .done budget here
  | mark hname _ ih =>
      rw [way_mark hname] at hway
      exact .mark hname (ih fun p hp => hway p (List.mem_cons_of_mem _ hp))
  | up _ ih =>
      rw [way_up] at hway
      exact .up (ih fun p hp => hway p (List.mem_cons_of_mem _ hp))
  | @directory budget here q name names hname hnode _ ih =>
      rw [way_entry hname.toNamesEntry (by simp [hnode])] at hway
      have hnode' : t'.get? (here ++ [name]) = some .directory := by
        rcases hway _ (List.mem_cons_of_mem _ (mem_way_start ..)) with hsame | ⟨hnone, -⟩
        · rw [hsame, hnode]
        · simp [hnode] at hnone
      exact .directory hname hnode' (ih fun p hp => hway p (List.mem_cons_of_mem _ hp))
  | @link budget here q name target names hname hnode hfollow _ ih =>
      rw [way_followed hname.toNamesEntry hnode hfollow] at hway
      have hnode' : t'.get? (here ++ [name]) = some (.link target) := by
        rcases hway _ (List.mem_cons_of_mem _ List.mem_cons_self) with hsame | ⟨hnone, -⟩
        · rw [hsame, hnode]
        · simp [hnode] at hnone
      exact .link hname hnode' hfollow
        (ih fun p hp => hway p (List.mem_cons_of_mem _ (List.mem_cons_of_mem _ hp)))
  | @last budget here name hname hdirectory hlink =>
      have hmem : here ++ [name] ∈ t.way follow budget here [name] :=
        (Walks.last hname hdirectory hlink).mem_way
      rcases hway _ hmem with hsame | ⟨-, hmade⟩
      · exact .last hname (hsame ▸ hdirectory) (hsame ▸ hlink)
      · exact .directory hname hmade (.done _ _)

theorem locate_of_way (h : t.locate follow directory p = .ok q)
    (hway : ∀ r ∈ t.wayTo follow directory p,
      t'.get? r = t.get? r ∨ (t.get? r = none ∧ t'.get? r = some .directory)) :
    t'.locate follow directory p = .ok q := by
  obtain ⟨haskable, hwalks⟩ := locate_eq_ok_iff.mp h
  exact locate_eq_ok_iff.mpr ⟨haskable, hwalks.of_way hway⟩

theorem locate_of_less (h : t.locate follow directory p = .ok q)
    (hless : ∀ r ∈ t.wayTo follow directory p, t'.get? r = t.get? r ∨ t'.get? r = none) :
    t'.locate follow directory p = .error .missing ∨
      ∃ r, t'.locate follow directory p = .ok r ∧ (r = q ∨ follow = true ∧ t'.get? r = none) :=
  locate_of_stopped (fun _ => stops_of_vacant) h hless

theorem Walks.way_append {more : List Text} (h : Walks t true budget here names q)
    (hq : t.get? q = some .directory) (hmore : more ≠ []) :
    ∀ p ∈ t.way follow budget here (names ++ more),
      p ∈ t.way true budget here names ∨ ∃ less, p ∈ t.way follow less q more := by
  induction h with
  | done budget here => exact fun p hp => .inr ⟨budget, hp⟩
  | mark hname _ ih =>
      rw [List.cons_append, way_mark hname, way_mark hname]
      intro p hp
      rcases List.mem_cons.mp hp with rfl | hp
      · exact .inl List.mem_cons_self
      · exact (ih hq p hp).imp_left (List.mem_cons_of_mem _)
  | up _ ih =>
      rw [List.cons_append, way_up, way_up]
      intro p hp
      rcases List.mem_cons.mp hp with rfl | hp
      · exact .inl List.mem_cons_self
      · exact (ih hq p hp).imp_left (List.mem_cons_of_mem _)
  | directory hname hnode _ ih =>
      rw [List.cons_append, way_entry hname.toNamesEntry (by simp [hnode]),
        way_entry hname.toNamesEntry (by simp [hnode])]
      intro p hp
      rcases List.mem_cons.mp hp with rfl | hp
      · exact .inl List.mem_cons_self
      · exact (ih hq p hp).imp_left (List.mem_cons_of_mem _)
  | @link budget here q name target names hname hnode _ _ ih =>
      rw [List.cons_append, way_followed hname.toNamesEntry hnode (by simp [hmore]),
        way_followed hname.toNamesEntry hnode fun _ => rfl, ← List.append_assoc]
      intro p hp
      rcases List.mem_cons.mp hp with rfl | hp
      · exact .inl List.mem_cons_self
      · rcases List.mem_cons.mp hp with rfl | hp
        · exact .inl (List.mem_cons_of_mem _ List.mem_cons_self)
        · refine (ih hq p hp).imp_left fun hmem => ?_
          exact List.mem_cons_of_mem _ (List.mem_cons_of_mem _ hmem)
  | last _ hdirectory _ => exact absurd hq hdirectory

theorem way_one {y : Text}
    (hlink : NamesEntry y → follow = true → ∀ target, t.get? (q ++ [y]) ≠ some (.link target)) :
    ∀ p ∈ t.way follow budget q [y],
      p = q ∨ (NamesEntry y ∧ p = q ++ [y]) ∨ (y = "..".toList ∧ p = q.dropLast) := by
  intro p hp
  by_cases hmark : isMark y = true
  · rw [way_mark hmark, way_nil] at hp
    exact .inl ((List.mem_pair.mp hp).elim id id)
  · by_cases hup : y = "..".toList
    · subst hup
      rw [way_up, way_nil] at hp
      exact (List.mem_pair.mp hp).imp_right fun hlast => .inr ⟨rfl, hlast⟩
    · have hy : NamesEntry y := ⟨Bool.eq_false_iff.mpr hmark, hup⟩
      rw [way_last hy (hlink hy)] at hp
      exact (List.mem_pair.mp hp).imp_right fun hlast => .inl ⟨hy, hlast⟩

theorem wayTo_concat {anchor : Anchor} {front : List Text} {y : Text}
    (hfound : t.find true directory ⟨anchor, front⟩ = .ok (q, .directory))
    (hlink : NamesEntry y → follow = true → ∀ target, t.get? (q ++ [y]) ≠ some (.link target)) :
    ∀ r ∈ t.wayTo follow directory ⟨anchor, front ++ [y]⟩,
      r ∈ t.wayTo true directory ⟨anchor, front⟩ ∨
        (NamesEntry y ∧ r = q ++ [y]) ∨ (y = "..".toList ∧ r = q.dropLast) := by
  obtain ⟨hlocate, hq⟩ := find_eq_ok_iff.mp hfound
  intro r hr
  rcases (locate_eq_ok_iff.mp hlocate).2.way_append hq (by simp) r hr with hway | ⟨less, hone⟩
  · exact .inl hway
  · rcases way_one hlink r hone with rfl | hlast
    · exact .inl (mem_wayTo hlocate)
    · exact .inr hlast

theorem wayTo_entry (hparent : t.find true directory p.parent = .ok (q, .directory))
    (hname : NamesEntry p.name)
    (hlink : follow = true → ∀ target, t.get? (q ++ [p.name]) ≠ some (.link target)) :
    ∀ r ∈ t.wayTo follow directory p, r ∈ t.wayTo true directory p.parent ∨ r = q ++ [p.name] := by
  have hway := wayTo_concat hparent fun _ => hlink
  rw [← names_of_namesEntry hname] at hway
  intro r hr
  exact (hway r hr).imp_right fun hlast => hlast.elim And.right fun hup => absurd hup.1 hname.not_up

theorem wayTo_of_extends (hrooted : t.Rooted) (hstanding : t.get? directory = some .directory)
    (hfound : t.find follow directory p = .ok (q, n)) (hextends : t.Extends t') :
    t'.wayTo follow directory p = t.wayTo follow directory p := by
  apply way_congr
  intro r hr target
  obtain ⟨node, hnode⟩ := Option.isSome_iff_exists.mp (present_of_find hrooted hstanding hfound r hr)
  rw [hextends r node hnode, hnode]

end Ways

/-- The place that a path leads to once the directories that are missing on its way are made. -/
def goal (t : FileTree) (directory : Place) (p : Path) : Place :=
  (t.wayTo true directory p).getLastD []

theorem goal_of_find {t : FileTree} {directory q : Place} {p : Path} {n : Node}
    (h : t.find true directory p = .ok (q, n)) : t.goal directory p = q := by
  have hlast := (locate_eq_ok_iff.mp (find_eq_ok_iff.mp h).1).2.getLast?_way
  rw [goal, List.getLastD_eq_getLast?, wayTo, hlast]
  rfl

theorem goal_congr {t t' : FileTree} {directory : Place} {p : Path}
    (h : t'.wayTo true directory p = t.wayTo true directory p) :
    t'.goal directory p = t.goal directory p := by
  rw [goal, h, goal]

end ScriptWeave.FileTree
