import ScriptWeave.Proofs.Interleaving

namespace ScriptWeave

open FileTree

variable {own kept foreign : Place → Prop} {h h' : Host}

theorem Procedure.steady_ask {action : Action}
    (hsame : ∀ h', h'.directory = h.directory → Drift kept foreign h.tree h'.tree →
      (action.perform h').1 = (action.perform h).1 ∧
      Drift foreign own h'.tree (action.perform h').2.tree ∧
      Drift kept foreign (action.perform h).2.tree (action.perform h').2.tree) :
    (Procedure.ask action).Steady own kept foreign h := by
  intro h' hdirectory hdrift between hlater
  obtain ⟨hreply, hstep, hafter⟩ := hsame between (hlater.directory.trans hdirectory)
    (hdrift.trans hlater.tree)
  exact ⟨hstep, fun last hlast => ⟨hreply, hafter.trans hlast.tree⟩⟩

theorem Procedure.steady_question {action : Action} (answer : FileTree → Place → action.Reply)
    (hperform : ∀ h, action.perform h = (answer h.tree h.directory, h)) {places : Place → Prop}
    (hfirm : ∀ q, places q → Firm kept foreign h.tree q)
    (hanswer : ∀ t, AgreeOn places h.tree t → answer t h.directory = answer h.tree h.directory) :
    (Procedure.ask action).Steady own kept foreign h := by
  apply Procedure.steady_ask
  intro h' hdirectory hdrift
  rw [hperform, hperform, hdirectory, hanswer h'.tree (hdrift.agreeOn hfirm)]
  exact ⟨rfl, .refl _ _ _, hdrift⟩

theorem Host.attempt_steady {change change' : Except FileCause FileTree} {writes : Place → Prop}
    (hdrift : Drift kept foreign h.tree h'.tree)
    (hsame : SameChange writes h.tree h'.tree change change')
    (hown : ∀ t, change = .ok t → ∀ q, writes q → own q) (p : Path) :
    (h'.attempt p change').1 = (h.attempt p change).1 ∧
      Drift foreign own h'.tree (h'.attempt p change').2.tree ∧
      Drift kept foreign (h.attempt p change).2.tree (h'.attempt p change').2.tree := by
  cases hsame with
  | failed cause => exact ⟨rfl, .refl _ _ _, hdrift⟩
  | @changed u u' inside outside =>
      refine ⟨rfl, fun q => ?_, fun q => ?_⟩
      · by_cases hq : writes q
        · exact .inl (hown u rfl q hq)
        · exact .inr (.inl (outside q hq).2)
      · show foreign q ∨ u'.get? q = u.get? q ∨
          (¬ kept q ∧ u.get? q = none ∧ u'.get? q = some .directory)
        by_cases hq : writes q
        · exact .inr (.inl (inside q hq))
        · obtain ⟨hsame, hsame'⟩ := outside q hq
          rw [hsame, hsame']
          exact hdrift q

namespace Attempt

variable {p target : Path} {d : Place}

section Firm

variable (hfirm : ∀ q ∈ h.tree.wayTo true h.directory p, Firm kept foreign h.tree q)

include hfirm

theorem steady_isPresent : (isPresent p).Steady own kept foreign h := by
  apply Procedure.steady_question fun t directory => (t.exists? directory p).mapError (⟨·, p⟩)
  · intro h
    rfl
  · exact hfirm
  · intro t hagree
    rw [exists?_agree hagree]

theorem steady_read : (read p).Steady own kept foreign h := by
  apply Procedure.steady_question fun t directory => (t.readFile directory p).mapError (⟨·, p⟩)
  · intro h
    rfl
  · exact hfirm
  · intro t hagree
    rw [readFile_agree hagree]

theorem steady_write {content : Bytes}
    (hown : ∀ t, h.tree.writeFile h.directory p content = .ok t →
      ∀ q, h.tree.locate true h.directory p = .ok q → own q) :
    (write p content).Steady own kept foreign h := by
  apply Procedure.steady_ask
  intro h' hdirectory hdrift
  have hsame : SameChange (h.tree.locate true h.directory p = .ok ·) h.tree h'.tree
      (h.tree.writeFile h.directory p content) (h'.tree.writeFile h'.directory p content) := by
    rw [hdirectory]
    exact modifyFile_agree _ (hdrift.agreeOn hfirm)
  exact Host.attempt_steady hdrift hsame hown p

theorem steady_append {content : Bytes}
    (hown : ∀ t, h.tree.appendFile h.directory p content = .ok t →
      ∀ q, h.tree.locate true h.directory p = .ok q → own q) :
    (append p content).Steady own kept foreign h := by
  apply Procedure.steady_ask
  intro h' hdirectory hdrift
  have hsame : SameChange (h.tree.locate true h.directory p = .ok ·) h.tree h'.tree
      (h.tree.appendFile h.directory p content) (h'.tree.appendFile h'.directory p content) := by
    rw [hdirectory]
    exact modifyFile_agree _ (hdrift.agreeOn hfirm)
  exact Host.attempt_steady hdrift hsame hown p

end Firm

theorem steady_removeFile (hfirm : ∀ q ∈ h.tree.wayTo false h.directory p, Firm kept foreign h.tree q)
    (hown : ∀ t, h.tree.removeFile h.directory p = .ok t →
      ∀ q, h.tree.locate false h.directory p = .ok q → own q) :
    (removeFile p).Steady own kept foreign h := by
  apply Procedure.steady_ask
  intro h' hdirectory hdrift
  have hsame : SameChange (h.tree.locate false h.directory p = .ok ·) h.tree h'.tree
      (h.tree.removeFile h.directory p) (h'.tree.removeFile h'.directory p) := by
    rw [hdirectory]
    exact removeFile_agree (hdrift.agreeOn hfirm)
  exact Host.attempt_steady hdrift hsame hown p

theorem steady_move (hplain : ∀ q, h.tree.find false h.directory p ≠ .ok (q, .directory))
    (hfirm : ∀ q ∈ h.tree.wayTo false h.directory p, Firm kept foreign h.tree q)
    (hfirm' : ∀ q ∈ h.tree.wayTo false h.directory target, Firm kept foreign h.tree q)
    (hown : ∀ q, h.tree.locate false h.directory p = .ok q ∨
      h.tree.locate false h.directory target = .ok q → own q) :
    (move p target).Steady own kept foreign h := by
  apply Procedure.steady_ask
  intro h' hdirectory hdrift
  have hsame : SameChange (fun q => h.tree.locate false h.directory p = .ok q ∨
      h.tree.locate false h.directory target = .ok q) h.tree h'.tree
      (h.tree.rename h.directory p target) (h'.tree.rename h'.directory p target) := by
    rw [hdirectory]
    exact rename_agree hplain (hdrift.agreeOn hfirm) (hdrift.agreeOn hfirm')
  exact Host.attempt_steady hdrift hsame (fun _ _ => hown) p

theorem steady_removeTree {place : Place}
    (hfind : (h.tree.clear place).find false h.directory p = .ok (place, .directory))
    (hfirm : ∀ q ∈ (h.tree.clear place).wayTo false h.directory p,
      Firm kept foreign (h.tree.clear place) q)
    (hplace : place ≠ []) (hname : p.name ≠ "..".toList) (hown : ∀ q, place <+: q → own q) :
    (removeTree p).Steady own kept foreign h ∧
      (removeTree p).on h = (.ok (), h.withTree ((h.tree.clear place).erase place)) := by
  have hremove : ∀ t : FileTree, (t.clear place).find false h.directory p = .ok (place, .directory) →
      t.removeTree h.directory p = ((t.clear place).erase place, .ok ()) := fun t hfound =>
    removeTree_of_find (find_of_extends hfound (clear_extends t place)) hfound hplace hname
  have hon : (removeTree p).on h = (.ok (), h.withTree ((h.tree.clear place).erase place)) := by
    rw [on_removeTree, hremove h.tree hfind]
    rfl
  refine ⟨?_, hon⟩
  apply Procedure.steady_ask
  intro h' hdirectory hdrift
  have hcleared : Drift kept foreign (h.tree.clear place) (h'.tree.clear place) := by
    intro q
    rw [get?_clear, get?_clear]
    split
    · exact .inr (.inl rfl)
    · exact hdrift q
  have hfind' : (h'.tree.clear place).find false h.directory p = .ok (place, .directory) := by
    rw [find_agree (hcleared.agreeOn hfirm), hfind]
  have hon' : (removeTree p).on h' = (.ok (), h'.withTree ((h'.tree.clear place).erase place)) := by
    rw [on_removeTree, hdirectory, hremove h'.tree hfind']
    rfl
  have hperform : ∀ h, (Action.removeTree p).perform h = (removeTree p).on h := fun _ => rfl
  rw [hperform, hperform, hon, hon']
  refine ⟨rfl, fun q => ?_, fun q => ?_⟩
  · simp only [Host.withTree_tree]
    rw [removed_erase_clear h'.tree hplace q]
    split
    · rename_i hbelow
      exact .inl (hown q hbelow)
    · exact .inr (.inl rfl)
  · simp only [Host.withTree_tree]
    rw [removed_erase_clear h'.tree hplace q, removed_erase_clear h.tree hplace q]
    split
    · exact .inr (.inl rfl)
    · exact hdrift q

/-- The path leads to an entry of a directory. Nobody else has a hand in the way to the directory,
and the entry is one's own. -/
structure OwnEntry (own kept foreign : Place → Prop) (h : Host) (p : Path) (d : Place) : Prop where
  parent : h.tree.find true h.directory p.parent = .ok (d, .directory)
  way : ∀ q ∈ h.tree.wayTo true h.directory p.parent, Firm kept foreign h.tree q
  name : NamesEntry p.name
  own : own (d ++ [p.name])
  firm : Firm kept foreign h.tree (d ++ [p.name])

section Entry

variable (hentry : OwnEntry own kept foreign h p d)

include hentry

theorem OwnEntry.firm_way {follow : Bool}
    (hlink : follow = true → ∀ target, h.tree.get? (d ++ [p.name]) ≠ some (.link target)) :
    ∀ q ∈ h.tree.wayTo follow h.directory p, Firm kept foreign h.tree q := by
  intro q hq
  rcases wayTo_entry hentry.parent hentry.name hlink q hq with hway | rfl
  · exact hentry.way q hway
  · exact hentry.firm

theorem OwnEntry.place_of_locate {follow : Bool} {q : Place}
    (hlink : follow = true → ∀ target, h.tree.get? (d ++ [p.name]) ≠ some (.link target))
    (hlocate : h.tree.locate follow h.directory p = .ok q) : q = d ++ [p.name] := by
  have hplain := locate_entry_of_locate hentry.parent hentry.name hlocate
  have hsame : h.tree.locate follow h.directory p = .ok (d ++ [p.name]) := by
    cases follow with
    | false => exact hplain
    | true => exact locate_followed hplain (hlink rfl)
  rw [hsame, Except.ok.injEq] at hlocate
  exact hlocate.symm

theorem OwnEntry.own_of_locate {follow : Bool} {q : Place}
    (hlink : follow = true → ∀ target, h.tree.get? (d ++ [p.name]) ≠ some (.link target))
    (hlocate : h.tree.locate follow h.directory p = .ok q) : own q :=
  hentry.place_of_locate hlink hlocate ▸ hentry.own

theorem OwnEntry.steady_removeFile : (removeFile p).Steady own kept foreign h :=
  Attempt.steady_removeFile (hentry.firm_way (by simp)) fun _ _ _ => hentry.own_of_locate (by simp)

section Linkless

variable (hlink : ∀ target, h.tree.get? (d ++ [p.name]) ≠ some (.link target))

include hlink

theorem OwnEntry.steady_isPresent : (isPresent p).Steady own kept foreign h :=
  Attempt.steady_isPresent (hentry.firm_way fun _ => hlink)

theorem OwnEntry.steady_write (content : Bytes) : (write p content).Steady own kept foreign h :=
  Attempt.steady_write (hentry.firm_way fun _ => hlink) fun _ _ _ =>
    hentry.own_of_locate fun _ => hlink

theorem OwnEntry.steady_append (content : Bytes) : (append p content).Steady own kept foreign h :=
  Attempt.steady_append (hentry.firm_way fun _ => hlink) fun _ _ _ =>
    hentry.own_of_locate fun _ => hlink

end Linkless

theorem OwnEntry.later (hdirectory : h'.directory = h.directory)
    (hsame : ∀ q ∈ h.tree.wayTo true h.directory p.parent, h'.tree.get? q = h.tree.get? q)
    (hkept : kept (d ++ [p.name])) : OwnEntry own kept foreign h' p d where
  parent := by rw [hdirectory, find_agree hsame, hentry.parent]
  way := by
    have hway : h'.tree.wayTo true h.directory p.parent = h.tree.wayTo true h.directory p.parent :=
      way_congr fun q hq target => by rw [hsame q hq]
    rw [hdirectory, hway]
    intro q hq
    obtain ⟨hfree, hfirm⟩ := hentry.way q hq
    exact ⟨hfree, hfirm.imp_right fun hthere => by rwa [hsame q hq]⟩
  name := hentry.name
  own := hentry.own
  firm := ⟨hentry.firm.1, .inl hkept⟩

end Entry

end Attempt

end ScriptWeave
