import Mathlib.Data.List.Induction
import ScriptWeave.Proofs.FileTree.Way

namespace ScriptWeave.FileTree

theorem get?_start {t : FileTree} {here : Place} {absolute : Bool}
    (hhere : t.get? here = some .directory) :
    t.get? (if absolute then [] else here) = some .directory := by
  split
  · exact get?_root t
  · exact hhere

/-- Everything that is there is in a directory. -/
def Rooted (t : FileTree) : Prop :=
  ∀ p name n, t.get? (p ++ [name]) = some n → t.get? p = some .directory

section Rooted

variable {t : FileTree} {p q here : Place} {n : Node}

theorem Rooted.dropLast (h : t.Rooted) (hp : t.get? p = some n) :
    t.get? p.dropLast = some .directory := by
  cases p using List.reverseRecOn with
  | nil => exact get?_root t
  | append_singleton p name =>
      rw [List.dropLast_concat]
      exact h p name n hp

theorem Rooted.vacant_below (h : t.Rooted) (hp : t.get? p = none) (hq : p <+: q) :
    t.get? q = none := by
  obtain ⟨names, rfl⟩ := hq
  induction names using List.reverseRecOn with
  | nil => rwa [List.append_nil]
  | append_singleton names name ih =>
      rw [← List.append_assoc, Option.eq_none_iff_forall_ne_some]
      intro node hnode
      have habove := h _ name node hnode
      rw [ih] at habove
      simp at habove

theorem not_prefix_dropLast (hp : p ≠ []) : ¬ p <+: p.dropLast := by
  intro hprefix
  have hlength := hprefix.length_le
  have hpos := List.length_pos_iff.mpr hp
  rw [List.length_dropLast] at hlength
  omega

theorem dropLast_ne (hp : p ≠ []) : p.dropLast ≠ p := by
  intro hsame
  have hself := not_prefix_dropLast hp
  rw [hsame] at hself
  exact hself (List.prefix_refl p)

theorem Rooted.put (h : t.Rooted) (hp : t.get? p ≠ some .directory)
    (habove : t.get? p.dropLast = some .directory) : (t.put p n).Rooted := by
  have hne : p ≠ [] := fun hnil => hp (hnil ▸ get?_root t)
  have hupdates := updates_put t n hne
  intro q name m hq
  have hdirectory : t.get? q = some .directory := by
    rw [hupdates (q ++ [name])] at hq
    split at hq
    · rename_i hqp
      rwa [← hqp, List.dropLast_concat] at habove
    · exact h q name m hq
  rw [hupdates.other, hdirectory]
  rintro rfl
  exact hp hdirectory

theorem Rooted.erase (h : t.Rooted) (hp : p ≠ []) (hempty : ∀ name, t.get? (p ++ [name]) = none) :
    (t.erase p).Rooted := by
  have hupdates := updates_erase t hp
  intro q name m hq
  rw [hupdates (q ++ [name])] at hq
  split at hq
  · simp at hq
  · rw [hupdates.other, h q name m hq]
    rintro rfl
    simp [hempty] at hq

theorem Rooted.nothing_in (h : t.Rooted) (hp : t.get? p ≠ some .directory) (name : Text) :
    t.get? (p ++ [name]) = none := by
  rw [Option.eq_none_iff_forall_ne_some]
  exact fun n hn => hp (h p name n hn)

theorem rooted_of_nodes (h : t.nodes.all (fun e => t.get? e.1.dropLast = some .directory) = true) :
    t.Rooted := by
  intro p name n hp
  rw [get?, if_neg (by simp), Option.map_eq_some_iff] at hp
  obtain ⟨e, hfound, -⟩ := hp
  have hsame : e.1.same (p ++ [name]) = true := by simpa using List.find?_some hfound
  have hdirectory := List.all_eq_true.mp h e (List.mem_of_find?_eq_some hfound)
  rwa [decide_eq_true_iff, Place.same_iff.mp hsame, List.dropLast_concat] at hdirectory

theorem Walks.above {follow : Bool} {budget : Nat} {names : List Text}
    (hrooted : t.Rooted) (hhere : t.get? here = some .directory)
    (h : Walks t follow budget here names q) :
    t.get? q = some .directory ∨ t.get? q.dropLast = some .directory := by
  induction h with
  | done budget here => exact .inl hhere
  | mark _ _ ih => exact ih hhere
  | up _ ih => exact ih (hrooted.dropLast hhere)
  | directory _ hnode _ ih => exact ih hnode
  | link _ _ _ _ ih => exact ih (get?_start hhere)
  | last _ _ _ =>
      rw [List.dropLast_concat]
      exact .inr hhere

theorem Rooted.above_of_locate {directory : Place} {path : Path} {follow : Bool} (hrooted : t.Rooted)
    (hstanding : t.get? directory = some .directory)
    (h : t.locate follow directory path = .ok q) :
    t.get? q = some .directory ∨ t.get? q.dropLast = some .directory :=
  (locate_eq_ok_iff.mp h).2.above hrooted (get?_start hstanding)

theorem Walks.leadsOn_or_end {follow : Bool} {budget : Nat} {names : List Text}
    (hrooted : t.Rooted) (hhere : t.get? here = some .directory)
    (h : Walks t follow budget here names q) :
    ∀ r ∈ t.way follow budget here names,
      r = q ∨ ∃ n, t.get? r = some n ∧ n.leadsOn = true := by
  induction h with
  | done budget here =>
      rw [way_nil, List.forall_mem_singleton]
      exact .inl rfl
  | mark hname _ ih =>
      rw [way_mark hname, List.forall_mem_cons]
      exact ⟨.inr ⟨_, hhere, rfl⟩, ih hhere⟩
  | up _ ih =>
      rw [way_up, List.forall_mem_cons]
      exact ⟨.inr ⟨_, hhere, rfl⟩, ih (hrooted.dropLast hhere)⟩
  | directory hname hnode _ ih =>
      rw [way_entry hname.toNamesEntry (by simp [hnode]), List.forall_mem_cons]
      exact ⟨.inr ⟨_, hhere, rfl⟩, ih hnode⟩
  | link hname hnode hfollow _ ih =>
      rw [way_followed hname.toNamesEntry hnode hfollow, List.forall_mem_cons, List.forall_mem_cons]
      exact ⟨.inr ⟨_, hhere, rfl⟩, .inr ⟨_, hnode, rfl⟩, ih (get?_start hhere)⟩
  | last hname _ hlink =>
      rw [way_last hname.toNamesEntry hlink, List.forall_mem_cons, List.forall_mem_singleton]
      exact ⟨.inr ⟨_, hhere, rfl⟩, .inl rfl⟩

theorem entry_behind {n : Text} {ns : List Text} (hn : ¬ NamesEntry n)
    (h : ∃ name ∈ n :: ns, NamesEntry name) : ∃ name ∈ ns, NamesEntry name := by
  obtain ⟨name, hmem, hname⟩ := h
  rcases List.mem_cons.mp hmem with rfl | hmem
  · exact absurd hname hn
  · exact ⟨name, hmem, hname⟩

theorem Walks.front {follow : Bool} {budget : Nat} {names ns more : List Text}
    (hrooted : t.Rooted) (hfrom : t.get? here = some .directory ∨ ∃ name ∈ ns, NamesEntry name)
    (h : Walks t follow budget here names q) (hnames : names = ns ++ more) (hmore : more ≠ []) :
    ∃ p, Walks t true budget here ns p ∧ t.get? p = some .directory := by
  induction h generalizing ns with
  | done budget here =>
      have hnil := (List.append_eq_nil_iff.mp hnames.symm).2
      exact absurd hnil hmore
  | @mark budget here q name names hname _ ih =>
      cases ns with
      | nil => exact ⟨here, .done _ _, by simpa using hfrom⟩
      | cons n ns =>
          obtain ⟨rfl, htail⟩ := List.cons.inj hnames
          have hnot : ¬ NamesEntry name := fun hentry => by simp [hentry.not_mark] at hname
          obtain ⟨p, hwalks, hp⟩ := ih (hfrom.imp_right (entry_behind hnot)) htail
          exact ⟨p, .mark hname hwalks, hp⟩
  | @up budget here q names _ ih =>
      cases ns with
      | nil => exact ⟨here, .done _ _, by simpa using hfrom⟩
      | cons n ns =>
          obtain ⟨rfl, htail⟩ := List.cons.inj hnames
          have hnot : ¬ NamesEntry "..".toList := fun hentry => hentry.not_up rfl
          obtain ⟨p, hwalks, hp⟩ := ih (hfrom.imp hrooted.dropLast (entry_behind hnot)) htail
          exact ⟨p, .up hwalks, hp⟩
  | @directory budget here q name names hname hnode _ ih =>
      cases ns with
      | nil => exact ⟨here, .done _ _, by simpa using hfrom⟩
      | cons n ns =>
          obtain ⟨rfl, htail⟩ := List.cons.inj hnames
          obtain ⟨p, hwalks, hp⟩ := ih (.inl hnode) htail
          exact ⟨p, .directory hname hnode hwalks, hp⟩
  | @link budget here q name target names hname hnode _ _ ih =>
      cases ns with
      | nil => exact ⟨here, .done _ _, by simpa using hfrom⟩
      | cons n ns =>
          obtain ⟨rfl, rfl⟩ := List.cons.inj hnames
          have hhere := hrooted here _ _ hnode
          obtain ⟨p, hwalks, hp⟩ := ih (.inl (get?_start hhere)) (List.append_assoc _ _ _).symm
          exact ⟨p, .link hname hnode (fun _ => rfl) hwalks, hp⟩
  | @last budget here name hname _ _ =>
      cases ns with
      | nil => exact ⟨here, .done _ _, by simpa using hfrom⟩
      | cons n ns =>
          have hnil := (List.append_eq_nil_iff.mp (List.cons.inj hnames).2.symm).2
          exact absurd hnil hmore

end Rooted

/-! ### The first names of a path -/

section Front

variable {anchor : Anchor} {ns more : List Text} {t : FileTree} {directory q : Place}

theorem joinWith_front (separator : Text) (ns more : List Text) :
    Text.joinWith separator ns <+: Text.joinWith separator (ns ++ more) := by
  induction ns with
  | nil => exact List.nil_prefix
  | cons part ns ih =>
      cases ns with
      | nil =>
          cases more with
          | nil => exact List.prefix_refl _
          | cons part' more =>
              exact ⟨separator ++ Text.joinWith separator (part' :: more),
                (List.append_assoc _ _ _).symm⟩
      | cons part' ns =>
          obtain ⟨rest, hrest⟩ := ih
          refine ⟨rest, ?_⟩
          rw [List.cons_append, Text.joinWith_cons_of_ne_nil _ _ (by simp), List.append_assoc, hrest,
            Text.joinWith_cons_of_ne_nil _ _ (by simp)]

theorem length_encode_le {t u : Text} (h : t <+: u) :
    (Text.encode t).length ≤ (Text.encode u).length := by
  obtain ⟨rest, rfl⟩ := h
  rw [Text.encode, Text.encode, List.flatMap_append, List.length_append]
  omega

theorem toText_eq {p : Path} (h : ¬(p.anchor = .relative ∧ p.names = [])) :
    p.toText = Path.anchorText p.anchor ++ Text.joinWith ['/'] p.names := by
  obtain ⟨anchor, names⟩ := p
  cases anchor <;> cases names <;> first | rfl | exact absurd ⟨rfl, rfl⟩ h

theorem Askable.front (h : Askable ⟨anchor, ns ++ more⟩) : Askable ⟨anchor, ns⟩ := by
  refine ⟨?_, ?_⟩
  · have hnull := h.no_null
    rw [List.any_append, Bool.or_eq_false_iff] at hnull
    exact hnull.1
  · have hlong := h.not_long
    rw [isTooLong, decide_eq_false_iff_not, Nat.not_le] at hlong ⊢
    by_cases hdot : anchor = .relative ∧ ns = []
    · obtain ⟨rfl, rfl⟩ := hdot
      decide
    · have hmore : ¬(anchor = .relative ∧ ns ++ more = []) := by
        rintro ⟨hanchor, hnil⟩
        exact hdot ⟨hanchor, (List.append_eq_nil_iff.mp hnil).1⟩
      rw [toText_eq hdot]
      rw [toText_eq hmore] at hlong
      refine Nat.lt_of_le_of_lt (length_encode_le ?_) hlong
      exact (List.prefix_append_right_inj _).mpr (joinWith_front _ _ _)

def Founded (t : FileTree) (directory : Place) (ns : List Text) : Prop :=
  t.get? directory = some .directory ∨ ∃ name ∈ ns, NamesEntry name

theorem find_front {follow : Bool} (hrooted : t.Rooted) (hfounded : Founded t directory ns)
    (h : t.locate follow directory ⟨anchor, ns ++ more⟩ = .ok q) (hmore : more ≠ []) :
    ∃ p, t.find true directory ⟨anchor, ns⟩ = .ok (p, .directory) := by
  obtain ⟨haskable, hwalks⟩ := locate_eq_ok_iff.mp h
  have hfrom : t.get? (startOf directory ⟨anchor, ns ++ more⟩) = some .directory ∨
      ∃ name ∈ ns, NamesEntry name := by
    rw [startOf]
    split
    · exact .inl (get?_root t)
    · exact hfounded
  obtain ⟨p, hfront, hp⟩ := hwalks.front hrooted hfrom rfl hmore
  exact ⟨p, find_eq_ok_iff.mpr ⟨locate_eq_ok_iff.mpr ⟨haskable.front, hfront⟩, hp⟩⟩

theorem find_of_front {follow : Bool} {node : Node} (hrooted : t.Rooted)
    (hfounded : Founded t directory ns)
    (h : t.find follow directory ⟨anchor, ns ++ more⟩ = .ok (q, node)) :
    ∃ p node', t.find false directory ⟨anchor, ns⟩ = .ok (p, node') := by
  by_cases hmore : more = []
  · subst hmore
    rw [List.append_nil] at h
    cases follow with
    | false => exact ⟨q, node, h⟩
    | true => exact find_unfollowed h
  · obtain ⟨p, hp⟩ := find_front hrooted hfounded (find_eq_ok_iff.mp h).1 hmore
    exact find_unfollowed hp

theorem Walks.go_on_within {follow : Bool} {budget : Nat} {here : Place}
    (h : Walks t true budget here ns q) (hq : t.get? q = some .directory) (hmore : more ≠ []) :
    ∃ less ≤ budget, t.walk follow budget here (ns ++ more) = t.walk follow less q more := by
  induction h with
  | done budget here => exact ⟨budget, Nat.le_refl _, rfl⟩
  | mark hname _ ih =>
      obtain ⟨less, hle, hless⟩ := ih hq
      exact ⟨less, hle, by rw [List.cons_append, walk_mark hname, hless]⟩
  | up _ ih =>
      obtain ⟨less, hle, hless⟩ := ih hq
      exact ⟨less, hle, by rw [List.cons_append, walk_up, hless]⟩
  | directory hname hnode _ ih =>
      obtain ⟨less, hle, hless⟩ := ih hq
      refine ⟨less, hle, ?_⟩
      rw [List.cons_append, walk_directory hname hnode]
      exact hless
  | link hname hnode _ _ ih =>
      obtain ⟨less, hle, hless⟩ := ih hq
      refine ⟨less, Nat.le_succ_of_le hle, ?_⟩
      rw [List.cons_append, walk_followed hname hnode (by simp [hmore]), ← List.append_assoc, hless]
  | last _ hdirectory _ => exact absurd hq hdirectory

theorem Walks.go_on {follow : Bool} {budget : Nat} {here : Place}
    (h : Walks t true budget here ns q) (hq : t.get? q = some .directory) (hmore : more ≠ []) :
    ∃ less, t.walk follow budget here (ns ++ more) = t.walk follow less q more := by
  obtain ⟨less, -, hless⟩ := h.go_on_within hq hmore
  exact ⟨less, hless⟩

theorem locate_up {follow : Bool} {r : Place}
    (hfound : t.find true directory ⟨anchor, ns⟩ = .ok (q, .directory))
    (h : t.locate follow directory ⟨anchor, ns ++ ["..".toList]⟩ = .ok r) : r = q.dropLast := by
  obtain ⟨hlocate, hq⟩ := find_eq_ok_iff.mp hfound
  have hmore : ["..".toList] ≠ [] := by simp
  obtain ⟨less, hless⟩ := (locate_eq_ok_iff.mp hlocate).2.go_on hq hmore
  have hwalk := hless.symm.trans (locate_eq_ok_iff.mp h).2.walk
  rw [walk_up, walk_nil] at hwalk
  exact (Except.ok.inj hwalk).symm

theorem entry_of_walk_missing {budget : Nat} {here : Place} {name : Text}
    (h : t.walk false budget here (ns ++ [name]) = .error .missing) :
    ∃ entry ∈ ns, NamesEntry entry := by
  induction ns generalizing here with
  | nil =>
      exfalso
      rw [List.nil_append] at h
      by_cases hmark : isMark name = true
      · rw [walk_mark hmark, walk_nil] at h
        simp at h
      · by_cases hup : name = "..".toList
        · rw [hup, walk_up, walk_nil] at h
          simp at h
        · have hname : NamesEntry name := ⟨Bool.eq_false_iff.mpr hmark, hup⟩
          by_cases hlong : nameLimit < (Text.encode name).length
          · rw [walk_long hname hlong] at h
            simp at h
          · have hwalks : Walks t false budget here [name] (here ++ [name]) :=
              walks_entry budget here ⟨hname, Nat.le_of_not_lt hlong⟩
            rw [hwalks.walk] at h
            simp at h
  | cons n ns ih =>
      rw [List.cons_append] at h
      by_cases hmark : isMark n = true
      · rw [walk_mark hmark] at h
        obtain ⟨entry, hmem, hentry⟩ := ih h
        exact ⟨entry, List.mem_cons_of_mem _ hmem, hentry⟩
      · by_cases hup : n = "..".toList
        · rw [hup, walk_up] at h
          obtain ⟨entry, hmem, hentry⟩ := ih h
          exact ⟨entry, List.mem_cons_of_mem _ hmem, hentry⟩
        · exact ⟨n, List.mem_cons_self, Bool.eq_false_iff.mpr hmark, hup⟩

theorem walk_of_makeDirectory_missing {p : Path}
    (h : t.makeDirectory directory p = .error .missing) :
    t.walk false linkLimit (startOf directory p) p.names = .error .missing := by
  have hlocate : t.locate false directory p = .error .missing := by
    rw [makeDirectory] at h
    split at h
    · rename_i hlocate
      rw [hlocate, Except.error.inj h]
    · split at h
      · simp at h
      · simp at h
  rw [locate] at hlocate
  split at hlocate
  · simp at hlocate
  · split at hlocate
    · simp at hlocate
    · exact hlocate

theorem entry_of_makeDirectory_missing {name : Text}
    (h : t.makeDirectory directory ⟨anchor, ns ++ [name]⟩ = .error .missing) :
    ∃ entry ∈ ns, NamesEntry entry :=
  entry_of_walk_missing (walk_of_makeDirectory_missing h)

theorem makeDirectory_not_missing {name : Text}
    (h : t.find true directory ⟨anchor, ns⟩ = .ok (q, .directory)) :
    t.makeDirectory directory ⟨anchor, ns ++ [name]⟩ ≠ .error .missing := by
  intro hmissing
  obtain ⟨hlocate, hq⟩ := find_eq_ok_iff.mp h
  have hnames : [name] ≠ [] := by simp
  obtain ⟨less, hless⟩ := (locate_eq_ok_iff.mp hlocate).2.go_on hq hnames
  have hwalk : t.walk false less q ([] ++ [name]) = .error .missing :=
    hless.symm.trans (walk_of_makeDirectory_missing hmissing)
  obtain ⟨entry, hmem, -⟩ := entry_of_walk_missing hwalk
  simp at hmem

end Front

/-! ### Removal -/

section Removal

variable {t t' : FileTree} {directory place p : Place} {path : Path}

theorem get?_clear (t : FileTree) (place p : Place) :
    (t.clear place).get? p = if place <+: p ∧ p ≠ place then none else t.get? p := by
  have hkeep : (fun e : Place × Node => (decide (e.1 = place) || !place.isPrefixOf e.1) &&
      Place.same e.1 p) =
        fun e => (decide (p = place) || !place.isPrefixOf p) && Place.same e.1 p := by
    funext e
    by_cases he : e.1 = p
    · rw [he]
    · rw [Place.same_eq_false_iff.mpr he, Bool.and_false, Bool.and_false]
  have hbelow : (decide (p = place) || !place.isPrefixOf p) = false ↔ place <+: p ∧ p ≠ place := by
    rw [Bool.or_eq_false_iff, decide_eq_false_iff_not, Bool.not_eq_false', List.isPrefixOf_iff_prefix]
    exact and_comm
  rw [get?, get?, clear, List.find?_filter]
  simp only [Bool.decide_and, Bool.decide_eq_true, hkeep]
  by_cases hp : place <+: p ∧ p ≠ place
  · have hnil : p ≠ [] := by
      rintro rfl
      exact hp.2 (List.prefix_nil.mp hp.1).symm
    rw [if_neg hnil, if_pos hp, hbelow.mpr hp]
    simp
  · have hstays : (decide (p = place) || !place.isPrefixOf p) = true := by
      rw [← Bool.not_eq_false, hbelow]
      exact hp
    rw [if_neg hp, hstays]
    simp

def Removed (t : FileTree) (place : Place) (t' : FileTree) : Prop :=
  ∀ p, t'.get? p = if place <+: p then none else t.get? p

theorem Rooted.removed (h : t.Rooted) (hremoved : Removed t place t') : t'.Rooted := by
  intro p name n hp
  rw [hremoved] at hp ⊢
  split at hp
  · simp at hp
  · rename_i hnot
    rw [h p name n hp, if_neg fun hbelow => hnot (hbelow.trans (List.prefix_append _ _))]

theorem removed_erase_clear (t : FileTree) (hplace : place ≠ []) :
    Removed t place ((t.clear place).erase place) := by
  intro p
  rw [updates_erase _ hplace p, get?_clear]
  by_cases hp : p = place
  · simp [hp]
  · simp [hp]

theorem Rooted.clear (h : t.Rooted) (place : Place) : (t.clear place).Rooted := by
  intro p name n hp
  rw [get?_clear] at hp ⊢
  split at hp
  · simp at hp
  · rename_i hnot
    rw [if_neg, h p name n hp]
    rintro ⟨hbelow, -⟩
    apply hnot
    refine ⟨hbelow.trans (List.prefix_append _ _), fun hplace => ?_⟩
    have hlength := hbelow.length_le
    rw [← hplace, List.length_append, List.length_singleton] at hlength
    omega

theorem clear_extends (t : FileTree) (place : Place) : Extends (t.clear place) t := by
  intro q n hq
  rw [get?_clear] at hq
  split at hq
  · simp at hq
  · exact hq

theorem removeTree_of_find
    (hfind : t.find false directory path = .ok (place, .directory))
    (hcleared : (t.clear place).find false directory path = .ok (place, .directory))
    (hplace : place ≠ []) (hname : path.name ≠ "..".toList) :
    t.removeTree directory path = ((t.clear place).erase place, .ok ()) := by
  rw [removeTree, hfind]
  dsimp only
  rw [hcleared]
  dsimp only
  rw [if_neg (by rintro (h | h); exacts [hplace h, hname h])]

theorem find_of_removeTree (h : t.removeTree directory path = (t', .ok ())) :
    ∃ place, t.find false directory path = .ok (place, .directory) ∧
      (t.clear place).find false directory path = .ok (place, .directory) ∧ place ≠ [] ∧
      t' = (t.clear place).erase place := by
  rw [removeTree] at h
  split at h
  · simp at h
  · rename_i place hfind
    dsimp only at h
    split at h
    · simp at h
    · rename_i place' node hcleared
      have hsame := find_of_extends hcleared (clear_extends t place)
      rw [hfind, Except.ok.injEq, Prod.mk.injEq] at hsame
      obtain ⟨rfl, rfl⟩ := hsame
      split at h
      · simp at h
      · rename_i hnot
        refine ⟨place, hfind, hcleared, fun hnil => hnot (.inl hnil), ?_⟩
        exact (Prod.mk.inj h).1.symm
  · simp at h

end Removal

end ScriptWeave.FileTree
