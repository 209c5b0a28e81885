import ScriptWeave.Proofs.Publication
import ScriptWeave.Proofs.Steadiness.Directories
import ScriptWeave.Proofs.Workspace

namespace ScriptWeave.Workspace

open FileTree

variable {own kept foreign : Place → Prop} {w : Workspace} {h h' : Host} {session place : Place}

/-! ### The session directory -/

section Root

variable {t : FileTree} {directory q : Place} {n : Node} {follow : Bool}
  (hplain : w.Plain) (hrooted : t.Rooted)

include hplain hrooted

theorem find_builds (hfound : t.find false directory w.root = .ok (session, n)) :
    ∃ base, t.find true directory w.builds = .ok (base, .directory) ∧
      session = base ++ [w.session] := by
  obtain ⟨hlocate, -⟩ := find_eq_ok_iff.mp hfound
  have hnamed : ∃ name ∈ w.builds.names, NamesEntry name :=
    ⟨".build".toList, by simp [builds_eq], namesEntry_of_length (by decide)⟩
  have hfront := hlocate
  rw [hplain.root_eq] at hfront
  obtain ⟨base, hbase⟩ := find_front hrooted (.inr hnamed) hfront (by simp)
  have hparent : t.find true directory w.root.parent = .ok (base, .directory) := by
    rw [hplain.root_parent]
    exact hbase
  have hplace := eq_entry_of_locate hparent hplain.root_entry hlocate
  rw [hplain.root_name] at hplace
  exact ⟨base, hbase, hplace⟩

theorem mem_wayTo_root (hfound : t.find false directory w.root = .ok (session, .directory))
    (hq : q ∈ t.wayTo follow directory w.root) :
    q ∈ t.wayTo true directory w.builds ∨ q = session := by
  obtain ⟨base, hbase, rfl⟩ := find_builds hplain hrooted hfound
  obtain ⟨-, hnode⟩ := find_eq_ok_iff.mp hfound
  rw [← hplain.root_parent] at hbase ⊢
  rw [← hplain.root_name] at hnode ⊢
  exact wayTo_entry hbase hplain.root_entry (by simp [hnode]) q hq

end Root

/-- Nobody else has a hand in the session directory or in the way to it, and one's own files are
elsewhere or in it. -/
structure Private (w : Workspace) (own kept foreign : Place → Prop) (h : Host) (session : Place) :
    Prop where
  way : ∀ q ∈ h.tree.wayTo true h.directory w.builds, ¬ foreign q
  place : session = h.tree.goal h.directory w.builds ++ [w.session]
  inside : ∀ q, session <+: q → own q ∧ kept q ∧ ¬ foreign q
  outside : ¬ session <+: h.directory

/-! ### Clearing -/

structure Clearable (w : Workspace) (foreign : Place → Prop) (h : Host) (session : Place) : Prop where
  sound : h.Sound
  found : (h.tree.clear session).find false h.directory w.root = .ok (session, .directory)
  way : ∀ q ∈ h.tree.wayTo true h.directory w.builds, ¬ foreign q
  outside : ¬ session <+: h.directory

namespace Clearable

variable (hplain : w.Plain) (hclear : w.Clearable foreign h session)

include hclear

theorem standing : (h.tree.clear session).get? h.directory = some .directory := by
  rw [get?_clear, if_neg fun hbelow => hclear.outside hbelow.1, hclear.sound.standing]

theorem followed : (h.tree.clear session).find true h.directory w.root = .ok (session, .directory) :=
  find_followed hclear.found

include hplain

theorem wayTo_builds :
    (h.tree.clear session).wayTo true h.directory w.builds = h.tree.wayTo true h.directory w.builds := by
  have hrooted := hclear.sound.rooted.clear session
  obtain ⟨base, hbase, -⟩ := find_builds hplain hrooted hclear.found
  exact (wayTo_of_extends hrooted hclear.standing hbase (clear_extends _ _)).symm

theorem free (hinside : ∀ q, session <+: q → own q ∧ ¬ foreign q) {follow : Bool} {q : Place}
    (hq : q ∈ (h.tree.clear session).wayTo follow h.directory w.root) : ¬ foreign q := by
  rcases mem_wayTo_root hplain (hclear.sound.rooted.clear session) hclear.found hq with hway | rfl
  · rw [hclear.wayTo_builds hplain] at hway
    exact hclear.way q hway
  · exact (hinside q (List.prefix_refl q)).2

theorem steady (hinside : ∀ q, session <+: q → own q ∧ ¬ foreign q) :
    w.clear.Steady own kept foreign h := by
  have hrooted := hclear.sound.rooted.clear session
  have hextends := clear_extends h.tree session
  have hway := wayTo_of_extends hrooted hclear.standing hclear.followed hextends
  have hpresent : (Attempt.isPresent w.root).Steady own kept foreign h := by
    apply Attempt.steady_isPresent
    intro q hq
    rw [hway] at hq
    obtain ⟨n, hn⟩ := Option.isSome_iff_exists.mp
      (present_of_find hrooted hclear.standing hclear.followed q hq)
    exact ⟨hclear.free hplain hinside hq, .inr (by rw [hextends q n hn]; rfl)⟩
  refine Attempt.Steady.bind hpresent fun present _ => ?_
  cases present with
  | false => exact Attempt.steady_pure _
  | true =>
      obtain ⟨base, -, hsession⟩ := find_builds hplain hrooted hclear.found
      refine (Attempt.steady_removeTree hclear.found (fun q hq => ?_) (by simp [hsession])
        hplain.root_entry.not_up fun q hq => (hinside q hq).1).1
      exact ⟨hclear.free hplain hinside hq,
        .inr (present_of_find hrooted hclear.standing hclear.found q hq)⟩

theorem later {writes : Place → Prop} (hsound : h'.Sound) (hdirectory : h'.directory = h.directory)
    (hdrift : Drift kept writes h.tree h'.tree) (hsession : ¬ writes session)
    (hbuilds : ∀ q ∈ h.tree.wayTo true h.directory w.builds, ¬ writes q) :
    w.Clearable foreign h' session := by
  have hrooted := hclear.sound.rooted.clear session
  have hagree : AgreeOn (· ∈ (h.tree.clear session).wayTo false h.directory w.root)
      (h.tree.clear session) (h'.tree.clear session) := by
    intro q hq
    have hunwritten : ¬ writes q := by
      rcases mem_wayTo_root hplain hrooted hclear.found hq with hway | rfl
      · rw [hclear.wayTo_builds hplain] at hway
        exact hbuilds q hway
      · exact hsession
    have hpresent := present_of_find hrooted hclear.standing hclear.found q hq
    rw [get?_clear] at hpresent
    rw [get?_clear, get?_clear]
    split at hpresent
    · simp at hpresent
    · rename_i hoff
      rw [if_neg hoff, if_neg hoff]
      exact hdrift.firm ⟨hunwritten, .inr hpresent⟩
  refine ⟨hsound, ?_, ?_, hdirectory ▸ hclear.outside⟩
  · rw [hdirectory, find_agree hagree, hclear.found]
  · rw [hdirectory, hdrift.wayTo hbuilds]
    exact hclear.way

end Clearable

theorem steady_isPresent_absent {made : Host} {places : Place → Prop} (hsound : made.Sound)
    (hgrows : h.GrowsIn places made)
    (hfound : made.tree.find true made.directory w.root = .ok (session, .directory))
    (hfree : ∀ q ∈ made.tree.wayTo true made.directory w.root, ¬ foreign q)
    (hkept : kept session) (hvacant : h.tree.get? session = none) :
    (Attempt.isPresent w.root).Steady own kept foreign h := by
  have hpresent := present_of_find hsound.rooted hsound.standing hfound
  -- On `made` the way is there to its end. Beside others some of it may be missing, but nothing of
  -- it has become something else.
  have habsent : ∀ h' : Host, h'.directory = h.directory → Drift kept foreign h.tree h'.tree →
      h'.tree.exists? h'.directory w.root = .ok false := by
    intro h' hdirectory hdrift
    have hless : ∀ q ∈ made.tree.wayTo true made.directory w.root,
        h'.tree.get? q = made.tree.get? q ∨ h'.tree.get? q = none := by
      intro q hq
      have hsome := hpresent q hq
      rcases hdrift q with hforeign | hsame | ⟨-, hnone, hdir⟩
      · exact absurd hforeign (hfree q hq)
      · rcases hgrows.tree q with hsame' | ⟨-, hnone, -⟩
        · exact .inl (hsame.trans hsame'.symm)
        · exact .inr (hsame.trans hnone)
      · rcases hgrows.tree q with hsame' | ⟨-, -, hdir'⟩
        · simp [hsame', hnone] at hsome
        · exact .inl (hdir.trans hdir'.symm)
    obtain ⟨hlocate, hnode⟩ := find_eq_ok_iff.mp hfound
    have hsession : h'.tree.get? session = none := by
      rw [hdrift.firm ⟨hfree session (mem_wayTo hlocate), .inl hkept⟩, hvacant]
    have hmade : made.directory = h'.directory := hgrows.directory.trans hdirectory.symm
    rw [exists?, find, ← hmade]
    rcases locate_of_less hlocate hless with hmissing | ⟨r, hplace, rfl | ⟨-, hnone⟩⟩
    · rw [hmissing]
    · rw [hplace]
      dsimp only
      rw [hsession]
    · rw [hplace]
      dsimp only
      rw [hnone]
  have hperform : ∀ h : Host, (Action.isPresent w.root).perform h =
      ((h.tree.exists? h.directory w.root).mapError (⟨·, w.root⟩), h) := fun _ => rfl
  apply Procedure.steady_ask
  intro h' hdirectory hdrift
  rw [hperform, hperform, habsent h' hdirectory hdrift, habsent h rfl (.refl _ _ _)]
  exact ⟨rfl, .refl _ _ _, hdrift⟩

/-! ### Entering -/

/-- The directory of the project is there, nobody else has a hand in it, and there are no links
in it. -/
structure Seated (w : Workspace) (own kept foreign : Place → Prop) (h : Host) (place : Place) :
    Prop where
  sound : h.Sound
  found : h.tree.find true h.directory w.path = .ok (place, .directory)
  way : ∀ q ∈ h.tree.wayTo true h.directory w.path, ¬ foreign q ∧ (place <+: q → q = place)
  above : ¬ foreign place.dropLast
  inside : ∀ q, place <+: q → q ≠ place → own q ∧ kept q ∧ ¬ foreign q
  linkless : ∀ name target, h.tree.get? (place ++ [name]) ≠ some (.link target)

theorem Opened.found_unfollowed {cleared : Host} (hopened : w.Opened h h' session place)
    (hnew : (Directories.makeNew w.path).on cleared = (.ok (), h')) :
    h'.tree.find false h'.directory w.path = .ok (place, .directory) := by
  obtain ⟨q, hq⟩ := Directories.find_of_on_makeNew hnew
  have hfound := hopened.found
  rw [← hopened.directory, find_followed hq, Except.ok.injEq, Prod.mk.injEq] at hfound
  rw [hq, hfound.1]

section Opened

variable (hplain : w.Plain) (hsound : h'.Sound) (hopened : w.Opened h h' session place)
  (hway : ∀ q ∈ h'.tree.wayTo true h'.directory w.builds, ¬ foreign q)
  (hinside : ∀ q, session <+: q → own q ∧ kept q ∧ ¬ foreign q)

include hplain hsound hopened hway

theorem free_above_session : ¬ foreign session.dropLast := by
  obtain ⟨base, hbase, rfl⟩ := find_builds hplain hsound.rooted hopened.root_found
  rw [List.dropLast_concat]
  exact hway _ (mem_wayTo (find_eq_ok_iff.mp hbase).1)

include hinside

theorem free_of_root {follow : Bool} :
    ∀ q ∈ h'.tree.wayTo follow h'.directory w.root, ¬ foreign q := by
  intro q hq
  rcases mem_wayTo_root hplain hsound.rooted hopened.root_found hq with hbuilds | rfl
  · exact hway q hbuilds
  · exact (hinside q (List.prefix_refl q)).2.2

theorem free_above : ¬ foreign place.dropLast := by
  by_cases hsame : place = session
  · rw [hsame]
    exact free_above_session hplain hsound hopened hway
  · have hbelow : session <+: place.dropLast := by
      obtain ⟨more, rfl⟩ := hopened.inside
      have hmore : more ≠ [] := fun hnil => hsame (by rw [hnil, List.append_nil])
      rw [List.dropLast_append_of_ne_nil hmore]
      exact List.prefix_append _ _
    exact (hinside _ hbelow).2.2

variable (hpath : h'.tree.find false h'.directory w.path = .ok (place, .directory))

include hpath

theorem free_of_path : ∀ q ∈ h'.tree.wayTo true h'.directory w.path, ¬ foreign q := by
  have hroot := find_followed hopened.root_found
  by_cases hmark : isMark w.project = true
  · rw [hplain.path_of_mark hmark]
    exact free_of_root hplain hsound hopened hway hinside
  · have hnames := hplain.path_of_not_mark hmark
    have hlink : NamesEntry w.project → true = true → ∀ target,
        h'.tree.get? (session ++ [w.project]) ≠ some (.link target) := by
      intro hentry _ target
      have hname : w.path.name = w.project := by rw [hnames, Path.name_concat]
      have hparent : w.path.parent = w.root := by rw [hnames, Path.parent_concat]
      obtain ⟨hlocate, hnode⟩ := find_eq_ok_iff.mp hpath
      have hplace := eq_entry_of_locate (hparent ▸ hroot) (hname ▸ hentry) hlocate
      rw [← hname, ← hplace, hnode]
      simp
    intro q hq
    rw [hnames] at hq
    rcases wayTo_concat hroot hlink q hq with hq | ⟨-, rfl⟩ | ⟨-, rfl⟩
    · exact free_of_root hplain hsound hopened hway hinside q hq
    · exact (hinside _ (List.prefix_append _ _)).2.2
    · exact free_above_session hplain hsound hopened hway

theorem seated_of_opened : w.Seated own kept foreign h' place where
  sound := hsound
  found := find_followed hpath
  way := by
    refine fun q hq => ⟨free_of_path hplain hsound hopened hway hinside hpath q hq, fun hbelow => ?_⟩
    by_contra hne
    have hsome := present_of_find hsound.rooted hsound.standing (find_followed hpath) q hq
    simp [hopened.empty q hbelow hne] at hsome
  above := free_above hplain hsound hopened hway hinside
  inside := fun q hq _ => hinside q (hopened.inside.trans hq)
  linkless := by
    intro name target
    rw [hopened.empty _ (List.prefix_append _ _) (by simp)]
    simp

end Opened

theorem on_enter_cases (hon : w.enter.on h = (.ok (), h')) :
    ∃ cleared made, w.clear.on h = (.ok (), cleared) ∧
      (Directories.makeNew w.path).on cleared = (.ok (), made) ∧ made.tree = h'.tree ∧
      made.directory = h'.directory := by
  obtain ⟨_, made, hmade, hlog⟩ := Attempt.on_bind_eq_ok_iff.mp hon
  rw [Attempt.on_rephrase_eq_ok_iff] at hmade
  obtain ⟨_, cleared, hclear, hnew⟩ := Attempt.on_bind_eq_ok_iff.mp hmade
  rw [Attempt.on_lift] at hlog
  obtain ⟨-, rfl⟩ := Prod.mk.inj hlog
  exact ⟨cleared, made, hclear, hnew, rfl, rfl⟩

theorem Seated.of_same (hseated : w.Seated own kept foreign h place) (htree : h'.tree = h.tree)
    (hdirectory : h'.directory = h.directory) : w.Seated own kept foreign h' place where
  sound := ⟨htree ▸ hseated.sound.rooted, by rw [htree, hdirectory, hseated.sound.standing]⟩
  found := by rw [htree, hdirectory, hseated.found]
  way := by
    rw [htree, hdirectory]
    exact hseated.way
  above := hseated.above
  inside := hseated.inside
  linkless := htree ▸ hseated.linkless

/-- What entering comes to beside others: both its halves are steady, and the directory of the
project is one's own. -/
structure Entry (w : Workspace) (own kept foreign : Place → Prop) (h cleared made : Host)
    (session : Place) : Prop where
  clear : w.clear.Steady own kept foreign h
  make : (Directories.makeNew w.path).Steady own kept foreign cleared
  seated : ∃ place, w.Opened h made session place ∧ w.Seated own kept foreign made place

section Entry

variable {cleared made : Host}

theorem entry_of_opened (hplain : w.Plain) (hsound : cleared.Sound)
    (hprivate : w.Private own kept foreign h session)
    (hways : cleared.tree.wayTo true h.directory w.builds = h.tree.wayTo true h.directory w.builds)
    (hnew : (Directories.makeNew w.path).on cleared = (.ok (), made))
    (hopened : w.Opened h made session place) (hclear : w.clear.Steady own kept foreign h) :
    w.Entry own kept foreign h cleared made session := by
  have hcompleted := Directories.completed_of_makeNew hsound hnew
  have hpath := hopened.found_unfollowed hnew
  have hway : ∀ q ∈ made.tree.wayTo true made.directory w.builds, ¬ foreign q := by
    rw [hcompleted.grows.tree.wayTo, hopened.directory, hways]
    exact hprivate.way
  have hfree := free_of_path hplain hcompleted.sound hopened hway hprivate.inside hpath
  rw [hcompleted.grows.tree.wayTo, hcompleted.grows.directory] at hfree
  refine ⟨hclear, Directories.steady_makeNew hsound hfree (fun q hq => ?_) hnew, place, hopened,
    seated_of_opened hplain hcompleted.sound hopened hway hprivate.inside hpath⟩
  have hlast := (locate_eq_ok_iff.mp (find_eq_ok_iff.mp hpath).1).2.getLast?_way
  rw [← hcompleted.grows.tree.wayTo, ← hcompleted.grows.directory, wayTo, hlast,
    Option.some.injEq] at hq
  exact (hprivate.inside q (hq ▸ hopened.inside)).2.1

variable (hplain : w.Plain) (hsound : h.Sound) (hprivate : w.Private own kept foreign h session)

include hplain hsound hprivate

theorem entry_of_absent {cache : Place}
    (hcache : h.tree.find true h.directory w.cacheRoot = .ok (cache, .directory))
    (habsent : h.tree.exists? h.directory w.root = .ok false)
    (hnew : (Directories.makeNew w.path).on h = (.ok (), made)) :
    w.Entry own kept foreign h h made session := by
  obtain ⟨session', place, hopened, hvacant⟩ := opened_of_absent hplain hsound hcache habsent hnew
  have hcompleted := Directories.completed_of_makeNew hsound hnew
  have hsame := hcompleted.grows.tree.wayTo true h.directory w.builds
  obtain rfl : session' = session := by
    obtain ⟨base, hbase, rfl⟩ := find_builds hplain hcompleted.sound.rooted hopened.root_found
    rw [hopened.directory] at hbase
    rw [hprivate.place, ← goal_congr hsame, goal_of_find hbase]
  have hway : ∀ q ∈ made.tree.wayTo true made.directory w.builds, ¬ foreign q := by
    rw [hopened.directory, hsame]
    exact hprivate.way
  have hfree : ∀ q ∈ made.tree.wayTo true made.directory w.root, ¬ foreign q :=
    free_of_root hplain hcompleted.sound hopened hway hprivate.inside
  refine entry_of_opened hplain hsound hprivate rfl hnew hopened (Attempt.Steady.bind ?_ ?_)
  · exact steady_isPresent_absent hcompleted.sound hcompleted.grows
      (find_followed hopened.root_found) hfree (hprivate.inside _ (List.prefix_refl _)).2.1 hvacant
  · intro present hpresent
    rw [Attempt.on_isPresent, habsent] at hpresent
    obtain rfl : present = false := (Except.ok.inj hpresent).symm
    exact Attempt.steady_pure _

theorem entry_of_present {t : FileTree} (hremove : h.tree.removeTree h.directory w.root = (t, .ok ()))
    (hnew : (Directories.makeNew w.path).on (h.withTree t) = (.ok (), made)) :
    w.Entry own kept foreign h (h.withTree t) made session := by
  obtain ⟨session', hready, rfl⟩ := ready_of_removeTree hsound.rooted hremove
  obtain rfl : session' = session := by
    have hfound := find_of_extends hready.found (clear_extends h.tree session')
    obtain ⟨base, hbase, rfl⟩ := find_builds hplain hsound.rooted hfound
    rw [hprivate.place, goal_of_find hbase]
  have hclearable : w.Clearable foreign h session' :=
    ⟨hsound, hready.found, hprivate.way, hprivate.outside⟩
  have hempty := emptied_of_ready hsound.rooted hready
  obtain ⟨place, hopened⟩ := opened_of_emptied hplain hready (hsound.rooted.clear session') hempty hnew
  have hstanding : ((h.tree.clear session').erase session').get? h.directory = some .directory := by
    rw [removed_erase_clear h.tree hready.ne_nil h.directory, if_neg hprivate.outside,
      hsound.standing]
  have hways := hempty.grows.wayTo true h.directory w.builds
  rw [hclearable.wayTo_builds hplain] at hways
  exact entry_of_opened hplain ⟨hempty.rooted, hstanding⟩ hprivate hways.symm hnew hopened
    (hclearable.steady hplain fun q hq => ⟨(hprivate.inside q hq).1, (hprivate.inside q hq).2.2⟩)

end Entry

theorem steady_enter (hplain : w.Plain) (hsound : h.Sound)
    (hprivate : w.Private own kept foreign h session)
    (hcache : h.tree.isDirectory h.directory w.cacheRoot = true)
    (hon : w.enter.on h = (.ok (), h')) :
    w.enter.Steady own kept foreign h ∧
      ∃ place, w.Opened h h' session place ∧ w.Seated own kept foreign h' place := by
  obtain ⟨cache, hroot⟩ := isDirectory_iff.mp hcache
  obtain ⟨cleared, made, hclear, hnew, htree, hdirectory⟩ := on_enter_cases hon
  have hentry : w.Entry own kept foreign h cleared made session := by
    rcases on_clear_eq_ok hclear with ⟨habsent, rfl⟩ | ⟨t, hremove, rfl⟩
    · exact entry_of_absent hplain hsound hprivate hroot habsent hnew
    · exact entry_of_present hplain hsound hprivate hremove hnew
  obtain ⟨place, hopened, hseated⟩ := hentry.seated
  refine ⟨?_, place, hopened.of_same htree.symm hdirectory.symm,
    hseated.of_same htree.symm hdirectory.symm⟩
  refine Attempt.Steady.bind (Attempt.Steady.rephrase (Attempt.Steady.bind hentry.clear
    fun _ _ => ?_) _) fun _ _ => Attempt.steady_lift (Procedure.steady_log _ _ _ _)
  rw [hclear]
  exact hentry.make

/-! ### Writing -/

/-- Nothing has changed but what is below the directory of the project, and there are no links
in it. -/
structure Within (place : Place) (h h' : Host) : Prop where
  sound : h'.Sound
  directory : h'.directory = h.directory
  same : ∀ q, (place <+: q → q = place) → h'.tree.get? q = h.tree.get? q
  linkless : ∀ name target, h'.tree.get? (place ++ [name]) ≠ some (.link target)

theorem Within.trans {between : Host} (hfirst : Within place h between)
    (hsecond : Within place between h') : Within place h h' :=
  ⟨hsecond.sound, hsecond.directory.trans hfirst.directory,
    fun q hq => (hsecond.same q hq).trans (hfirst.same q hq), hsecond.linkless⟩

section Seated

variable (hseated : w.Seated own kept foreign h place)

include hseated

theorem Seated.within : Within place h h :=
  ⟨hseated.sound, rfl, fun _ _ => rfl, hseated.linkless⟩

theorem Seated.later (hwithin : Within place h h') : w.Seated own kept foreign h' place where
  sound := hwithin.sound
  found := by
    rw [hwithin.directory, find_agree fun q hq => hwithin.same q (hseated.way q hq).2, hseated.found]
  way := by
    have hway : h'.tree.wayTo true h.directory w.path = h.tree.wayTo true h.directory w.path :=
      way_congr fun q hq target => by rw [hwithin.same q (hseated.way q hq).2]
    rw [hwithin.directory, hway]
    exact hseated.way
  above := hseated.above
  inside := hseated.inside
  linkless := hwithin.linkless

variable {p : Path} (hparent : p.parent = w.path) (hname : NamesEntry p.name)

include hparent hname

theorem Seated.entry : Attempt.OwnEntry own kept foreign h p place where
  parent := by rw [hparent, hseated.found]
  way := by
    rw [hparent]
    exact fun q hq => ⟨(hseated.way q hq).1,
      .inr (present_of_find hseated.sound.rooted hseated.sound.standing hseated.found q hq)⟩
  name := hname
  own := (hseated.inside _ (List.prefix_append _ _) (by simp)).1
  firm := by
    obtain ⟨-, hkept, hfree⟩ := hseated.inside _ (List.prefix_append place [p.name]) (by simp)
    exact ⟨hfree, .inl hkept⟩

theorem Seated.within_write (content : Bytes) :
    Within place h ((Attempt.write p content).on h).2 := by
  have hrooted := (Action.write p content).perform_rooted hseated.sound
  cases hwritten : h.tree.writeFile h.directory p content with
  | error cause =>
      have hon : (Attempt.write p content).on h = (.error ⟨cause, p⟩, h) := by
        show h.attempt p (h.tree.writeFile h.directory p content) = _
        rw [hwritten]
        rfl
      rw [hon]
      exact hseated.within
  | ok tree =>
      have hon := Attempt.on_write_eq_ok_iff.mpr ⟨tree, hwritten, rfl⟩
      obtain ⟨q, n, hlocate, hfile, hupdates, hleads⟩ := updates_of_modifyFile hwritten
      obtain rfl := (hseated.entry hparent hname).place_of_locate
        (fun _ => hseated.linkless p.name) hlocate
      have hperform : (Action.write p content).perform h = (.ok (), h.withTree tree) := hon
      rw [hperform] at hrooted
      rw [hon]
      refine ⟨⟨hrooted, ?_⟩, rfl, fun q hq => hupdates.other ?_, fun name target => ?_⟩
      · rw [Host.withTree_tree, Host.withTree_directory, hupdates.other, hseated.sound.standing]
        exact fun hsame => hfile (hsame ▸ hseated.sound.standing)
      · rintro rfl
        simpa using hq (List.prefix_append _ _)
      · rw [Host.withTree_tree, hupdates]
        split
        · rintro ⟨⟩
          simp [Node.leadsOn] at hleads
        · exact hseated.linkless name target

end Seated

section Files

theorem binaryPath_eq (hplain : w.Plain) :
    w.binaryPath = ⟨w.path.anchor, w.path.names ++ [w.project ++ ".dll"]⟩ := by
  have hwhole : '/' ∉ w.project ++ ".dll" := by simpa using hplain.project_whole
  exact Path.join_entry _ (namesEntry_of_length (by simp)) hwhole

theorem binaryPath_parent (hplain : w.Plain) : w.binaryPath.parent = w.path := by
  rw [binaryPath_eq hplain, Path.parent_concat]

theorem namesEntry_binaryPath (hplain : w.Plain) : NamesEntry w.binaryPath.name := by
  rw [binaryPath_eq hplain, Path.name_concat]
  exact namesEntry_of_length (by simp)

theorem symbolsPath_parent (hplain : w.Plain) : w.symbolsPath.parent = w.path := by
  rw [symbolsPath, Path.withExtension, Path.withName_parent, binaryPath_parent hplain]

theorem steady_write (hplain : w.Plain) (hseated : w.Seated own kept foreign h place)
    (binary : Bytes) (symbols : Option Bytes) :
    (w.write binary symbols).Steady own kept foreign h ∧
      Within place h ((w.write binary symbols).on h).2 := by
  have hparent := binaryPath_parent hplain
  have hname := namesEntry_binaryPath hplain
  have hparent' := symbolsPath_parent hplain
  have hname' : NamesEntry w.symbolsPath.name := Publication.namesEntry_symbols w.binaryPath
  have hfirst := (hseated.entry hparent hname).steady_write (hseated.linkless _) binary
  have hbetween := hseated.within_write hparent hname binary
  have hstill := hseated.later hbetween
  constructor
  · refine Attempt.Steady.rephrase (Attempt.Steady.bind hfirst fun _ _ => ?_) _
    cases symbols with
    | none => exact Attempt.steady_pure _
    | some symbols =>
        refine Attempt.Steady.bind ?_ fun _ _ => Attempt.steady_pure _
        exact (hstill.entry hparent' hname').steady_write (hstill.linkless _) symbols
  · unfold write
    rw [Attempt.on_rephrase, Attempt.on_bind]
    rcases hon : (Attempt.write w.binaryPath binary).on h with ⟨e | u, between⟩ <;>
      rw [hon] at hbetween hstill
    · exact hbetween
    · cases symbols with
      | none => exact hbetween
      | some symbols =>
          have hafter := hstill.within_write hparent' hname' symbols
          dsimp only at hbetween hafter ⊢
          rw [Attempt.on_bind]
          rcases hon' : (Attempt.write w.symbolsPath symbols).on between with ⟨e | u, after⟩ <;>
            rw [hon'] at hafter
          · exact hbetween.trans hafter
          · exact hbetween.trans hafter

theorem on_write_of_fails {p : Path} {content : Bytes}
    (hfails : ∀ t, h.tree.writeFile h.directory p content ≠ .ok t) :
    ((Attempt.write p content).on h).2 = h := by
  show (h.attempt p (h.tree.writeFile h.directory p content)).2 = h
  cases hwritten : h.tree.writeFile h.directory p content with
  | error cause => rfl
  | ok t => exact absurd hwritten (hfails t)

theorem Seated.firm_of_not_entry (hseated : w.Seated own kept foreign h place) {name : Text}
    (hwhole : '/' ∉ name) (hname : ¬ NamesEntry name) :
    ∀ q ∈ h.tree.wayTo true h.directory (w.path.join (Path.ofText name)),
      Firm kept foreign h.tree q := by
  have hpresent := present_of_find hseated.sound.rooted hseated.sound.standing hseated.found
  have hway : ∀ q ∈ h.tree.wayTo true h.directory w.path, Firm kept foreign h.tree q :=
    fun q hq => ⟨(hseated.way q hq).1, .inr (hpresent q hq)⟩
  rw [Path.ofText_of_no_slash hwhole]
  by_cases hmark : isMark name = true
  · rwa [if_pos hmark, Path.join_nil]
  · rw [if_neg hmark]
    have habove : h.tree.get? place.dropLast = some .directory :=
      hseated.sound.rooted.dropLast (find_eq_ok_iff.mp hseated.found).2
    intro q hq
    rcases wayTo_concat hseated.found (fun hentry => absurd hentry hname) q hq with
      hq | ⟨hentry, -⟩ | ⟨-, rfl⟩
    · exact hway q hq
    · exact absurd hentry hname
    · exact ⟨hseated.above, .inr (by simp [habove])⟩

theorem steady_document (hseated : w.Seated own kept foreign h place) {name : Text}
    (hwhole : '/' ∉ name) (content : Bytes) :
    (Attempt.write (w.path.join (Path.ofText name)) content).Steady own kept foreign h ∧
      Within place h ((Attempt.write (w.path.join (Path.ofText name)) content).on h).2 := by
  by_cases hname : NamesEntry name
  · have hpath := w.path.join_entry hname hwhole
    have hparent : (w.path.join (Path.ofText name)).parent = w.path := by
      rw [hpath, Path.parent_concat]
    have hentry : NamesEntry (w.path.join (Path.ofText name)).name := by
      rwa [hpath, Path.name_concat]
    exact ⟨(hseated.entry hparent hentry).steady_write (hseated.linkless _) content,
      hseated.within_write hparent hentry content⟩
  · have hfails : ∀ t,
        h.tree.writeFile h.directory (w.path.join (Path.ofText name)) content ≠ .ok t :=
      fun t hwritten => hname (namesEntry_of_writeFile hseated.found
        (hseated.sound.rooted.dropLast (find_eq_ok_iff.mp hseated.found).2) hwhole hwritten)
    rw [on_write_of_fails hfails]
    exact ⟨Attempt.steady_write (hseated.firm_of_not_entry hwhole hname) fun t ht =>
      absurd ht (hfails t), hseated.within⟩

end Files

/-! ### Leaving -/

theorem steady_remove (hplain : w.Plain) (hclear : w.Clearable foreign h session)
    (hinside : ∀ q, session <+: q → own q ∧ ¬ foreign q) :
    w.remove.Steady own kept foreign h ∧
      w.remove.run h = (true, h.withTree ((h.tree.clear session).erase session)) := by
  obtain ⟨base, -, hsession⟩ := find_builds hplain (hclear.sound.rooted.clear session) hclear.found
  have hne : session ≠ [] := by simp [hsession]
  refine ⟨Procedure.Steady.bind (hclear.steady hplain hinside) ?_,
    run_remove_of_found hplain hclear.found hne⟩
  have hon : w.clear.run.run h = (.ok (), h.withTree ((h.tree.clear session).erase session)) :=
    on_clear_of_found hplain hclear.found hne
  rw [hon]
  exact Procedure.steady_done _

end ScriptWeave.Workspace
