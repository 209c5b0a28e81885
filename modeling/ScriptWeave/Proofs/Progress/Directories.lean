import ScriptWeave.Proofs.Directories

namespace ScriptWeave

namespace FileTree

variable {t t' : FileTree} {follow : Bool} {budget : Nat} {here q directory : Place}
variable {names more ns : List Text} {x name : Text} {anchor : Anchor} {p : Path}

theorem Walks.missing_behind (h : Walks t false budget here names q) (hnames : names = ns ++ [x])
    (hx : NamesEntry x) (hvacant : t.get? q = none) (hmore : more ≠ []) :
    t.walk follow budget here (names ++ more) = .error .missing := by
  induction h generalizing ns with
  | done budget here => simp at hnames
  | @mark budget here q name names hname _ ih =>
      cases ns with
      | nil =>
          obtain ⟨rfl, -⟩ := List.cons.inj hnames
          simp [hx.not_mark] at hname
      | cons n ns =>
          rw [List.cons_append, walk_mark hname]
          exact ih (List.cons.inj hnames).2 hvacant
  | up _ ih =>
      cases ns with
      | nil => exact absurd (List.cons.inj hnames).1.symm hx.not_up
      | cons n ns =>
          rw [List.cons_append, walk_up]
          exact ih (List.cons.inj hnames).2 hvacant
  | @directory budget here q name names hname hnode hrest ih =>
      cases ns with
      | nil =>
          obtain rfl := (List.cons.inj hnames).2
          cases hrest with
          | done => simp [hnode] at hvacant
      | cons n ns =>
          rw [List.cons_append, walk_directory hname hnode]
          exact ih (List.cons.inj hnames).2 hvacant
  | @link budget here q name target names hname hnode hfollow _ ih =>
      cases ns with
      | nil => exact absurd (hfollow (List.cons.inj hnames).2) (by simp)
      | cons n ns =>
          obtain ⟨-, rfl⟩ := List.cons.inj hnames
          have hbehind := ih (List.append_assoc _ _ _).symm hvacant
          rw [List.cons_append, walk_followed hname hnode (by simp), ← List.append_assoc, hbehind]
  | @last budget here name hname hdirectory hlink =>
      rw [List.cons_append, List.nil_append, walk_entry hname (by simp [hvacant]), hvacant]
      exact if_neg hmore

theorem walk_error_append {cause : FileCause} (h : t.walk false budget here names = .error cause) :
    t.walk follow budget here (names ++ more) = .error cause := by
  induction budget, here, names using walk_induction t with
  | done budget here => simp [walk_nil] at h
  | mark budget here name names hname ih =>
      rw [walk_mark hname] at h
      rw [List.cons_append, walk_mark hname]
      exact ih h
  | up budget here names ih =>
      rw [walk_up] at h
      rw [List.cons_append, walk_up]
      exact ih h
  | entry budget here name names hname hlink ih =>
      rw [List.cons_append]
      by_cases hlong : nameLimit < (Text.encode name).length
      · rw [walk_long hname hlong] at h ⊢
        exact h
      · have hentry : IsEntry name := ⟨hname, Nat.le_of_not_lt hlong⟩
        by_cases hdirectory : t.get? (here ++ [name]) = some .directory
        · rw [walk_directory hentry hdirectory] at h ⊢
          exact ih h
        · obtain ⟨cause', hwalk⟩ := exists_walk_stopped hentry hdirectory hlink
          rw [hwalk] at h ⊢
          -- A last name is an end like any other, so the walk was stopped at one in front of it.
          by_cases hnil : names = []
          · simp [hnil] at h
          · rw [if_neg hnil] at h
            rw [if_neg (by simp [hnil]), h]
  | link budget here name names target hname hlink ih =>
      rw [List.cons_append]
      by_cases hlong : nameLimit < (Text.encode name).length
      · rw [walk_long hname hlong] at h ⊢
        exact h
      · have hentry : IsEntry name := ⟨hname, Nat.le_of_not_lt hlong⟩
        rw [walk_link hentry hlink] at h ⊢
        by_cases hnil : names = []
        · simp [hnil] at h
        · rw [if_neg (by simp [hnil])] at h ⊢
          cases budget with
          | zero => exact h
          | succ less =>
              rw [jumpOf] at h ⊢
              rw [← List.append_assoc]
              exact ih less rfl _ _ h

theorem makeDirectory_missing_behind (hentry : NamesEntry p.name)
    (haskable : Askable ⟨p.anchor, p.names ++ [x]⟩)
    (h : (∃ t', t.makeDirectory directory p = .ok t') ∨
      t.makeDirectory directory p = .error .missing) :
    t.makeDirectory directory ⟨p.anchor, p.names ++ [x]⟩ = .error .missing := by
  have hstart : startOf directory ⟨p.anchor, p.names ++ [x]⟩ = startOf directory p := rfl
  have hwalk : t.walk false linkLimit (startOf directory p) (p.names ++ [x]) = .error .missing := by
    rcases h with ⟨t', hmade⟩ | hmissing
    · obtain ⟨q, hlocate, hvacant, -⟩ := makeDirectory_eq_ok_iff.mp hmade
      exact (locate_eq_ok_iff.mp hlocate).2.missing_behind (names_of_namesEntry hentry) hentry hvacant
        (by simp)
    · exact walk_error_append (walk_of_makeDirectory_missing hmissing)
  rw [makeDirectory, locate, if_neg (Bool.eq_false_iff.mp haskable.no_null),
    if_neg (Bool.eq_false_iff.mp haskable.not_long), hstart, hwalk]

end FileTree

namespace Directories

open FileTree

variable {h h' : Host} {p : Path} {x : Text}

theorem on_makeUp_fine {anchor : Anchor} {names : List Text}
    (hon : (makeUp anchor false names).on h = (.ok (), h')) :
    (makeUp anchor true names).on h = (.ok (), h') := by
  have haccept : ∀ {p : Path} {made : Attempt FileError Unit} {h : Host},
      (accept false p made).on h = (.ok (), h') → (accept true p made).on h = (.ok (), h') := by
    intro p made h hfalse
    rw [on_accept_false] at hfalse
    rw [on_accept, hfalse]
  cases names with
  | nil => exact haccept hon
  | cons name above =>
      rw [on_makeUp_cons] at hon ⊢
      split at hon
      · obtain ⟨_, between, habove, hlast⟩ := Attempt.on_bind_eq_ok_iff.mp hon
        exact Attempt.on_bind_eq_ok_iff.mpr ⟨_, between, habove, haccept hlast⟩
      · exact haccept hon

theorem on_makeNew_child (hentry : NamesEntry p.name)
    (haskable : Askable ⟨p.anchor, p.names ++ [x]⟩) (hon : (makeNew p).on h = (.ok (), h')) :
    (makeNew ⟨p.anchor, p.names ++ [x]⟩).on h =
      (Attempt.makeDirectory ⟨p.anchor, p.names ++ [x]⟩).on h' := by
  have hfirst : (∃ t', h.tree.makeDirectory h.directory p = .ok t') ∨
      h.tree.makeDirectory h.directory p = .error .missing := by
    have hnames := names_of_namesEntry hentry
    rw [makeNew, hnames] at hon
    rcases secures_of_on_makeUp_concat hon with hsecures | ⟨hmissing, -⟩
    · obtain ⟨t', hmake, -⟩ := Attempt.on_makeDirectory_eq_ok_iff.mp hsecures.made
      rw [← hnames] at hmake
      exact .inl ⟨t', hmake⟩
    · rw [← hnames] at hmissing
      exact .inr hmissing
  have hmissing : (Attempt.makeDirectory ⟨p.anchor, p.names ++ [x]⟩).on h =
      (.error ⟨.missing, ⟨p.anchor, p.names ++ [x]⟩⟩, h) := by
    rw [Attempt.on_makeDirectory, makeDirectory_missing_behind hentry haskable hfirst]
    rfl
  have hreverse : (p.names ++ [x]).reverse = x :: p.names.reverse := by
    rw [List.reverse_append]
    rfl
  have hback : (⟨p.anchor, (x :: p.names.reverse).reverse⟩ : Path) = ⟨p.anchor, p.names ++ [x]⟩ := by
    rw [← hreverse, List.reverse_reverse]
  rw [makeNew, hreverse, on_makeUp_cons, hback, hmissing]
  dsimp only
  rw [Attempt.on_bind_of_ok (on_makeUp_fine hon), on_accept_false]

end Directories

end ScriptWeave
