import ScriptWeave.Proofs.FileTree.Rooted

namespace ScriptWeave.FileTree

def IsPlain (t : FileTree) (p : Place) : Prop := ∃ n, t.get? p = some n ∧ n.leadsOn = false

/-- Nothing has changed on the way but that something plain has come to stand there. -/
def BarredOn (places : Place → Prop) (t t' : FileTree) : Prop :=
  ∀ p, places p → t'.get? p = t.get? p ∨ t'.IsPlain p

section Barred

variable {t t' : FileTree} {follow : Bool} {budget : Nat} {here q directory : Place}
variable {names : List Text} {p : Path}

theorem IsPlain.ne_directory (h : t.IsPlain q) : t.get? q ≠ some .directory := by
  obtain ⟨n, hn, hplain⟩ := h
  rintro hdirectory
  rw [hn, Option.some.injEq] at hdirectory
  simp [hdirectory, Node.leadsOn] at hplain

theorem IsPlain.ne_link (h : t.IsPlain q) (target : Text) : t.get? q ≠ some (.link target) := by
  obtain ⟨n, hn, hplain⟩ := h
  rintro hlink
  rw [hn, Option.some.injEq] at hlink
  simp [hlink, Node.leadsOn] at hplain

theorem IsPlain.stops (h : t.IsPlain q) : t.Stops .notDirectory q := by
  rintro follow budget here name names hname rfl
  obtain ⟨n, hn, hplain⟩ := id h
  rw [walk_entry hname h.ne_link, hn]
  cases n with
  | file content runnable => rfl
  | sink => rfl
  | directory => simp [Node.leadsOn] at hplain
  | link target => simp [Node.leadsOn] at hplain

theorem locate_of_barred (h : t.locate follow directory p = .ok q)
    (hbarred : BarredOn (· ∈ t.wayTo follow directory p) t t') :
    t'.locate follow directory p = .error .notDirectory ∨
      ∃ r, t'.locate follow directory p = .ok r ∧ (r = q ∨ t'.IsPlain r) := by
  rcases locate_of_stopped (fun _ => IsPlain.stops) h hbarred with hstopped | ⟨r, hlocate, hend⟩
  · exact .inl hstopped
  · exact .inr ⟨r, hlocate, hend.imp_right And.right⟩

theorem BarredOn.find_directory {r : Place}
    (hbarred : BarredOn (· ∈ t.wayTo follow directory p) t t')
    (hfound : t.find follow directory p = .ok (q, .directory))
    (hfound' : t'.find follow directory p = .ok (r, .directory)) : r = q := by
  obtain ⟨hlocate, hnode⟩ := find_eq_ok_iff.mp hfound'
  rcases locate_of_barred (find_eq_ok_iff.mp hfound).1 hbarred with herror | ⟨r', hlocate', hend⟩
  · simp [herror] at hlocate
  · rw [hlocate', Except.ok.injEq] at hlocate
    subst hlocate
    exact hend.resolve_right fun hplain => hplain.ne_directory hnode

theorem BarredOn.locate_entry (hrooted : t'.Rooted) (hstanding : t'.get? directory = some .directory)
    (hbarred : BarredOn (· ∈ t.wayTo true directory p.parent) t t')
    (hparent : t.find true directory p.parent = .ok (q, .directory)) (hp : NamesEntry p.name)
    {r : Place} (hlocate : t'.locate follow directory p = .ok r) :
    t'.find true directory p.parent = .ok (q, .directory) ∧
      t'.locate false directory p = .ok (q ++ [p.name]) := by
  have hfront : ∃ d, t'.find true directory p.parent = .ok (d, .directory) := by
    have hwhole : t'.locate follow directory ⟨p.anchor, p.names.dropLast ++ [p.name]⟩ = .ok r := by
      rwa [← names_of_namesEntry hp]
    exact find_front hrooted (.inl hstanding) hwhole (by simp)
  obtain ⟨d, hfound⟩ := hfront
  obtain rfl := hbarred.find_directory hparent hfound
  exact ⟨hfound, locate_entry_of_locate hfound hp hlocate⟩

theorem Walks.directory_of_not_entry {ns : List Text} {x : Text} (hrooted : t.Rooted)
    (hhere : t.get? here = some .directory) (h : Walks t follow budget here names q)
    (hnames : names = ns ++ [x]) (hx : ¬ NamesEntry x) : t.get? q = some .directory := by
  induction h generalizing ns with
  | done budget here => exact hhere
  | @mark budget here q name names _ hmore ih =>
      cases ns with
      | nil =>
          obtain ⟨-, rfl⟩ := List.cons.inj hnames
          cases hmore
          exact hhere
      | cons n ns => exact ih hhere (List.cons.inj hnames).2
  | @up budget here q names hmore ih =>
      have habove := hrooted.dropLast hhere
      cases ns with
      | nil =>
          obtain ⟨-, rfl⟩ := List.cons.inj hnames
          cases hmore
          exact habove
      | cons n ns => exact ih habove (List.cons.inj hnames).2
  | directory hname hnode _ ih =>
      cases ns with
      | nil => exact absurd ((List.cons.inj hnames).1 ▸ hname.toNamesEntry) hx
      | cons n ns => exact ih hnode (List.cons.inj hnames).2
  | @link budget here q name target names hname _ _ _ ih =>
      cases ns with
      | nil => exact absurd ((List.cons.inj hnames).1 ▸ hname.toNamesEntry) hx
      | cons n ns =>
          obtain ⟨-, rfl⟩ := List.cons.inj hnames
          exact ih (get?_start hhere) (List.append_assoc _ _ _).symm
  | last hname _ _ =>
      cases ns with
      | nil => exact absurd ((List.cons.inj hnames).1 ▸ hname.toNamesEntry) hx
      | cons n ns => simp at hnames

theorem directory_of_not_entry (hrooted : t.Rooted)
    (hstanding : t.get? directory = some .directory) (hnamed : p.name ≠ [])
    (hentry : ¬ NamesEntry p.name) (h : t.locate follow directory p = .ok q) :
    t.get? q = some .directory := by
  have hnames : p.names = p.names.dropLast ++ [p.name] := by
    have hne : p.names ≠ [] := by
      intro hnil
      exact hnamed (by rw [Path.name, hnil]; rfl)
    rw [Path.name, List.getLast?_eq_getLast_of_ne_nil hne, Option.getD_some]
    exact (List.dropLast_append_getLast hne).symm
  exact (locate_eq_ok_iff.mp h).2.directory_of_not_entry hrooted (get?_start hstanding) hnames hentry

theorem leadsOn_of_mem_wayTo {r : Place} (hrooted : t.Rooted)
    (hstanding : t.get? directory = some .directory)
    (hfound : t.find follow directory p = .ok (q, .directory))
    (hr : r ∈ t.wayTo follow directory p) : ∃ n, t.get? r = some n ∧ n.leadsOn = true := by
  obtain ⟨hlocate, hend⟩ := find_eq_ok_iff.mp hfound
  have hwalks := (locate_eq_ok_iff.mp hlocate).2
  rcases hwalks.leadsOn_or_end hrooted (get?_start hstanding) r hr with rfl | hleads
  · exact ⟨_, hend, rfl⟩
  · exact hleads

end Barred

end ScriptWeave.FileTree
