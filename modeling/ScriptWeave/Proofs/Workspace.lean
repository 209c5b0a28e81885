import ScriptWeave.Workspace
import ScriptWeave.Proofs.Directories

namespace ScriptWeave

open FileTree

/-! ### Paths of one name -/

namespace Text

theorem pieces_of_none {isCut : Char → Bool} {t : Text} (h : ∀ c ∈ t, isCut c = false) :
    pieces isCut t = [t] := by
  induction t with
  | nil => rfl
  | cons c t ih =>
      have hrest := ih fun d hd => h d (List.mem_cons_of_mem _ hd)
      simp [pieces, h c List.mem_cons_self, hrest]

theorem not_cut_of_mem_pieces {isCut : Char → Bool} {t piece : Text}
    (h : piece ∈ pieces isCut t) : ∀ c ∈ piece, isCut c = false := by
  induction t generalizing piece with
  | nil =>
      obtain rfl := List.mem_singleton.mp h
      simp
  | cons c t ih =>
      rw [pieces] at h
      split at h
      · rcases List.mem_cons.mp h with rfl | hmore
        · simp
        · exact ih hmore
      · rename_i hc
        obtain ⟨piece', more, hpieces⟩ := List.exists_cons_of_ne_nil (pieces_ne_nil isCut t)
        rw [hpieces] at h ih
        rcases List.mem_cons.mp h with rfl | hmore
        · intro d hd
          rcases List.mem_cons.mp hd with rfl | hd
          · exact Bool.eq_false_iff.mpr hc
          · exact ih List.mem_cons_self d hd
        · exact ih (List.mem_cons_of_mem _ hmore)

end Text

namespace Path

theorem ofText_of_no_slash {t : Text} (h : '/' ∉ t) :
    ofText t = ⟨.relative, if isMark t then [] else [t]⟩ := by
  have hanchor : anchorOf t = .relative := by
    unfold anchorOf
    split <;> simp_all
  have hpieces : Text.pieces (· = '/') t = [t] := by
    apply Text.pieces_of_none
    intro c hc
    rw [decide_eq_false_iff_not]
    rintro rfl
    exact h hc
  rw [ofText, hanchor, namesOf, hpieces, isMark]
  by_cases hnil : t = []
  · simp [hnil]
  · by_cases hdot : t = ['.']
    · simp [hdot]
    · simp [hnil, hdot]

@[simp] theorem name_concat (anchor : Anchor) (names : List Text) (name : Text) :
    Path.name ⟨anchor, names ++ [name]⟩ = name := by
  rw [Path.name, List.getLast?_concat]
  rfl

@[simp] theorem parent_concat (anchor : Anchor) (names : List Text) (name : Text) :
    Path.parent ⟨anchor, names ++ [name]⟩ = ⟨anchor, names⟩ := by
  rw [Path.parent, List.dropLast_concat]

theorem join_nil (p : Path) : p.join ⟨.relative, []⟩ = p := by
  show Path.mk p.anchor (p.names ++ []) = p
  rw [List.append_nil]

theorem join_entry (p : Path) {name : Text} (hname : NamesEntry name) (hwhole : '/' ∉ name) :
    p.join (ofText name) = ⟨p.anchor, p.names ++ [name]⟩ := by
  rw [ofText_of_no_slash hwhole, if_neg (by simp [hname.not_mark])]
  rfl

theorem no_slash_name (t : Text) : '/' ∉ (ofText t).name := by
  have hnames : ∀ name ∈ namesOf t, '/' ∉ name := by
    intro name hname hslash
    have hcut := Text.not_cut_of_mem_pieces (List.mem_of_mem_filter hname) '/' hslash
    simp at hcut
  rw [Path.name, ofText]
  cases hlast : (namesOf t).getLast? with
  | none => simp
  | some name => exact hnames name (List.mem_of_getLast? hlast)

theorem mem_of_mem_stem {c : Char} {name : Text} (h : c ∈ (cutExtension name).1) : c ∈ name := by
  have hstem : ∀ {c}, c ∈ (name.reverse.dropWhile (· ≠ '.')).reverse.dropLast → c ∈ name := by
    intro c hc
    have hdrop := List.mem_reverse.mp ((List.dropLast_sublist _).subset hc)
    exact List.mem_reverse.mp ((List.dropWhile_sublist _).subset hdrop)
  rw [cutExtension] at h
  split at h
  · exact h
  · rename_i hcut
    split at h
    · exact h
    · exact hstem h

theorem no_slash_stem (t : Text) : '/' ∉ (ofText t).stem :=
  fun h => no_slash_name t (mem_of_mem_stem h)

end Path

theorem FileTree.namesEntry_of_writeFile {t t' : FileTree} {directory place : Place} {p : Path}
    {name : Text} {content : Bytes} (hfound : t.find true directory p = .ok (place, .directory))
    (habove : t.get? place.dropLast = some .directory) (hwhole : '/' ∉ name)
    (hwritten : t.writeFile directory (p.join (Path.ofText name)) content = .ok t') :
    NamesEntry name := by
  obtain ⟨hlocate, hnode⟩ := find_eq_ok_iff.mp hfound
  obtain ⟨q, hq, hfile⟩ := locate_of_writeFile hwritten
  rw [Path.ofText_of_no_slash hwhole] at hq
  have hmark : isMark name ≠ true := by
    intro hmark
    rw [if_pos hmark, Path.join_nil, hlocate, Except.ok.injEq] at hq
    exact hfile (hq ▸ hnode)
  refine ⟨Bool.eq_false_iff.mpr hmark, ?_⟩
  rintro rfl
  rw [if_neg hmark] at hq
  exact hfile (locate_up hfound hq ▸ habove)

namespace Workspace

/-- The session and the project are one name each, and the session is no dot or double dot. -/
structure Plain (w : Workspace) : Prop where
  session_entry : NamesEntry w.session
  session_whole : '/' ∉ w.session
  project_whole : '/' ∉ w.project

def builds (w : Workspace) : Path := w.cacheRoot.join ".build"

theorem builds_eq (w : Workspace) :
    w.builds = ⟨w.cacheRoot.anchor, w.cacheRoot.names ++ [".build".toList]⟩ := rfl

section Paths

variable {w : Workspace}

theorem Plain.root_eq (h : w.Plain) :
    w.root = ⟨w.cacheRoot.anchor, w.builds.names ++ [w.session]⟩ := by
  rw [root, Path.join_entry _ h.session_entry h.session_whole]
  rfl

theorem Plain.path_eq (h : w.Plain) :
    w.path = ⟨w.cacheRoot.anchor, w.root.names ++ if isMark w.project then [] else [w.project]⟩ := by
  rw [path, Path.ofText_of_no_slash h.project_whole, h.root_eq]
  rfl

theorem Plain.path_of_mark (h : w.Plain) (hmark : isMark w.project = true) : w.path = w.root := by
  rw [h.path_eq, if_pos hmark, List.append_nil, h.root_eq]

theorem Plain.path_of_not_mark (h : w.Plain) (hmark : isMark w.project ≠ true) :
    w.path = ⟨w.root.anchor, w.root.names ++ [w.project]⟩ := by
  rw [h.path_eq, if_neg hmark, h.root_eq]

theorem Plain.root_eq_concat (h : w.Plain) :
    w.root = ⟨w.builds.anchor, w.builds.names ++ [w.session]⟩ := h.root_eq

theorem Plain.root_name (h : w.Plain) : w.root.name = w.session := by
  rw [h.root_eq, Path.name_concat]

theorem Plain.root_entry (h : w.Plain) : NamesEntry w.root.name :=
  h.root_name ▸ h.session_entry

theorem Plain.root_parent (h : w.Plain) : w.root.parent = w.builds := by
  rw [h.root_eq_concat, Path.parent_concat]

theorem entry_mem_root (h : w.Plain) : ∃ name ∈ w.root.names, NamesEntry name := by
  refine ⟨w.session, ?_, h.session_entry⟩
  rw [h.root_eq]
  simp

end Paths

/-! ### The session directory -/

/-- A tree in which the session directory is there and empty. Everything else is as it was on the
host, but for directories on the way. -/
structure Ready (w : Workspace) (h : Host) (t : FileTree) (session : Place) : Prop where
  found : t.find false h.directory w.root = .ok (session, .directory)
  ne_nil : session ≠ []
  empty : ∀ p, session <+: p → p ≠ session → t.get? p = none
  above : t.get? session.dropLast = some .directory
  last : (h.tree.wayTo false h.directory w.root).getLast? = some session
  outside : ∀ p, ¬ session <+: p → t.get? p = h.tree.get? p ∨
    (p ∈ h.tree.wayTo true h.directory w.builds ∧ h.tree.get? p = none ∧ t.get? p = some .directory)

/-- The session directory holds nothing but the directory of the project. -/
structure Opened (w : Workspace) (h h' : Host) (session place : Place) : Prop where
  directory : h'.directory = h.directory
  ready : w.Ready h (h'.tree.clear session) session
  found : h'.tree.find true h.directory w.path = .ok (place, .directory)
  inside : session <+: place
  above : h'.tree.get? place.dropLast = some .directory
  empty : ∀ p, place <+: p → p ≠ place → h'.tree.get? p = none

variable {w : Workspace} {h h' between : Host} {t t' : FileTree} {session place : Place}

theorem Ready.of_same (hready : w.Ready h t session) (hsame : ∀ p, t'.get? p = t.get? p) :
    w.Ready h t' session where
  found := find_of_extends hready.found fun p _ hp => (hsame p).trans hp
  ne_nil := hready.ne_nil
  empty := fun p hbelow hne => (hsame p).trans (hready.empty p hbelow hne)
  above := (hsame _).trans hready.above
  last := hready.last
  outside := fun p hp => hsame p ▸ hready.outside p hp

theorem Opened.of_same (hopened : w.Opened h h' session place) (htree : between.tree = h'.tree)
    (hdirectory : between.directory = h'.directory) : w.Opened h between session place where
  directory := hdirectory.trans hopened.directory
  ready := htree ▸ hopened.ready
  found := htree ▸ hopened.found
  inside := hopened.inside
  above := htree ▸ hopened.above
  empty := htree ▸ hopened.empty

theorem Opened.root_found (hopened : w.Opened h h' session place) :
    h'.tree.find false h'.directory w.root = .ok (session, .directory) := by
  rw [hopened.directory]
  exact find_of_extends hopened.ready.found (clear_extends _ _)

theorem Ready.followed (hready : w.Ready h t session) :
    t.find true h.directory w.root = .ok (session, .directory) :=
  find_followed hready.found

theorem ready_of_removeTree (hrooted : h.tree.Rooted)
    (hremove : h.tree.removeTree h.directory w.root = (t, .ok ())) :
    ∃ session, w.Ready h (h.tree.clear session) session ∧
      t = (h.tree.clear session).erase session := by
  obtain ⟨session, hfind, hcleared, hne, rfl⟩ := find_of_removeTree hremove
  obtain ⟨hlocate, hnode⟩ := find_eq_ok_iff.mp hfind
  refine ⟨session, ⟨hcleared, hne, ?_, ?_, ?_, ?_⟩, rfl⟩
  · intro p hbelow hp
    rw [get?_clear, if_pos ⟨hbelow, hp⟩]
  · rw [get?_clear, if_neg]
    · exact hrooted.dropLast hnode
    · exact fun hbelow => not_prefix_dropLast hne hbelow.1
  · exact (locate_eq_ok_iff.mp hlocate).2.getLast?_way
  · intro p hp
    rw [get?_clear, if_neg (fun hbelow => hp hbelow.1)]
    exact .inl rfl

theorem made_of_builds {root : Place}
    (hcache : h.tree.find true h.directory w.cacheRoot = .ok (root, .directory))
    (hon : (Directories.makeUp w.builds.anchor true w.builds.names.reverse).on h = (.ok (), h')) :
    Directories.Secures true w.builds h h' := by
  rcases Directories.secures_of_on_makeUp_concat hon with hsecures | ⟨hmissing, -⟩
  · exact hsecures
  · exact absurd hmissing (makeDirectory_not_missing hcache)

theorem not_isDirectory_of_made {p : Path} {b : Place} (hsound : h.Sound)
    (hvacant : h.tree.get? b = none) (hname : NamesEntry p.name)
    (hparent : (h.tree.put b .directory).find true h.directory p.parent = .ok (b, .directory)) :
    (h.tree.put b .directory).isDirectory h.directory p ≠ true := by
  intro hthere
  obtain ⟨q, hfind⟩ := isDirectory_iff.mp hthere
  obtain ⟨q', node, hfound⟩ := find_unfollowed hfind
  obtain ⟨hlocate, hnode⟩ := find_eq_ok_iff.mp hfound
  rw [eq_entry_of_locate hparent hname hlocate, get?_put_of_ne _ _ (by simp),
    hsound.rooted.vacant_below hvacant (List.prefix_append _ _)] at hnode
  simp at hnode

theorem made_of_root {root : Place} {fine : Bool} (hplain : w.Plain) (hsound : h.Sound)
    (hcache : h.tree.find true h.directory w.cacheRoot = .ok (root, .directory))
    (habsent : h.tree.exists? h.directory w.root = .ok false)
    (hon : (Directories.makeUp w.root.anchor fine w.root.names.reverse).on h = (.ok (), h')) :
    ∃ between, between.Sound ∧ h.GrowsIn (· ∈ h.tree.wayTo true h.directory w.builds) between ∧
      (Attempt.makeDirectory w.root).on between = (.ok (), h') := by
  rw [hplain.root_eq_concat] at hon
  rcases Directories.secures_of_on_makeUp_concat hon with
    hsecures | ⟨hmissing, between, habove, hsecures⟩
  all_goals rw [← hplain.root_eq_concat] at hsecures
  · rcases hsecures with hmade | ⟨-, -, hthere⟩
    · exact ⟨h, hsound, .refl _ h, hmade⟩
    · obtain ⟨q, hfind⟩ := isDirectory_iff.mp hthere
      simp [exists?, hfind] at habsent
  · rcases made_of_builds hcache habove with hbuilds | ⟨-, -, hthere⟩
    · have hsound' := Directories.on_makeDirectory_sound hsound w.builds
      have hgrows := Directories.on_makeDirectory_growsIn h w.builds
      rw [hbuilds] at hsound' hgrows
      refine ⟨between, hsound', ⟨hgrows.tree.mono fun q hq => wayTo_subset _ _ _ hq,
        hgrows.directory⟩, hsecures.resolve_right ?_⟩
      rintro ⟨-, -, hthere⟩
      obtain ⟨tree, hmake, rfl⟩ := Attempt.on_makeDirectory_eq_ok_iff.mp hbuilds
      obtain ⟨b, hb, hvacant, rfl⟩ := makeDirectory_eq_ok_iff.mp hmake
      refine not_isDirectory_of_made hsound hvacant hplain.root_entry ?_ hthere
      rw [hplain.root_parent]
      exact find_followed (find_put_directory hb hvacant)
    · obtain ⟨b, hb⟩ := isDirectory_iff.mp hthere
      exact absurd hmissing (makeDirectory_not_missing hb)

theorem ready_of_made (hsound : between.Sound)
    (hgrows : h.GrowsIn (· ∈ h.tree.wayTo true h.directory w.builds) between)
    (hmade : (Attempt.makeDirectory w.root).on between = (.ok (), h')) :
    ∃ session, w.Ready h h'.tree session ∧ between.tree.GrowsIn (· = session) h'.tree ∧
      h.tree.get? session = none := by
  have hsound' := Directories.on_makeDirectory_sound hsound w.root
  rw [hmade] at hsound'
  obtain ⟨tree, hmake, rfl⟩ := Attempt.on_makeDirectory_eq_ok_iff.mp hmade
  obtain ⟨session, hlocate, hvacant, rfl⟩ := makeDirectory_eq_ok_iff.mp hmake
  rw [hgrows.directory] at hlocate
  have hfound := find_put_directory hlocate hvacant
  have habsent : h.tree.get? session = none := by
    rcases hgrows.tree session with hsame | ⟨-, hnone, -⟩
    · exact hsame.symm.trans hvacant
    · exact hnone
  refine ⟨session, ⟨hfound, ne_nil_of_vacant hvacant, ?_,
    hsound'.rooted.dropLast (find_eq_ok_iff.mp hfound).2, ?_, ?_⟩, growsIn_put hvacant, habsent⟩
  · intro p hbelow hne
    rw [Host.withTree_tree, get?_put_of_ne _ _ hne]
    exact hsound.rooted.vacant_below hvacant hbelow
  · rw [← hgrows.tree.wayTo]
    exact (locate_eq_ok_iff.mp hlocate).2.getLast?_way
  · intro p hp
    rw [Host.withTree_tree, get?_put_of_ne _ _ (by rintro rfl; exact hp (List.prefix_refl _))]
    exact hgrows.tree p

theorem place_of_path {q : Place} (hplain : w.Plain) (hready : w.Ready h t session)
    (hrooted : t'.Rooted) (hgrows : t'.GrowsIn (· = session) t) (hvacant : t'.get? q = none)
    (hlocate : t'.locate false h.directory w.path = .ok q) :
    q = session ∨
      (t'.get? session = some .directory ∧ q = session ++ [w.project]) := by
  have hplace := locate_of_extends hlocate hgrows.extends
  by_cases hmark : isMark w.project = true
  · rw [hplain.path_of_mark hmark, (find_eq_ok_iff.mp hready.found).1, Except.ok.injEq] at hplace
    exact .inl hplace.symm
  · have hpath := hplain.path_of_not_mark hmark
    have hthere : t'.get? session = some .directory := by
      rw [hpath] at hlocate
      obtain ⟨p, hfront⟩ := find_front hrooted (.inr (entry_mem_root hplain)) hlocate (by simp)
      have hsame := find_of_extends hfront hgrows.extends
      rw [hready.followed, Except.ok.injEq, Prod.mk.injEq] at hsame
      rw [hsame.1]
      exact (find_eq_ok_iff.mp hfront).2
    by_cases hup : w.project = "..".toList
    · rw [hpath, hup] at hplace
      have habove := locate_up hready.followed hplace
      rcases hgrows q with hsame | ⟨hq, -⟩
      · rw [hvacant, habove, hready.above] at hsame
        simp at hsame
      · exact absurd (habove.symm.trans hq) (dropLast_ne hready.ne_nil)
    · have hname : w.path.name = w.project := by rw [hpath, Path.name_concat]
      have hparent : w.path.parent = w.root := by rw [hpath, Path.parent_concat]
      have hentry : NamesEntry w.path.name := hname ▸ ⟨Bool.eq_false_iff.mpr hmark, hup⟩
      have hinside := eq_entry_of_locate (hparent ▸ hready.followed) hentry hplace
      exact .inr ⟨hthere, hname ▸ hinside⟩

theorem missing_of_path {q : Place} (hplain : w.Plain) (hready : w.Ready h t session)
    (hrooted : t'.Rooted) (hgrows : t'.GrowsIn (· = session) t) (hvacant : t'.get? q = none)
    (hlocate : t'.locate false h.directory w.path = .ok q) :
    session <+: q ∧ t.get? q.dropLast = some .directory ∧ ∀ p, p ≠ q → t'.get? p = t.get? p := by
  rcases place_of_path hplain hready hrooted hgrows hvacant hlocate with rfl | ⟨hthere, rfl⟩
  · refine ⟨List.prefix_refl _, hready.above, fun p hp => ?_⟩
    rcases hgrows p with hsame | ⟨hq, -⟩
    · exact hsame.symm
    · exact absurd hq hp
  · refine ⟨List.prefix_append _ _, ?_, fun p _ => ?_⟩
    · rw [List.dropLast_concat]
      exact hgrows.extends _ _ hthere
    · rcases hgrows p with hsame | ⟨rfl, hnone, -⟩
      · exact hsame.symm
      · simp [hthere] at hnone

theorem opened_of_makeDirectory (hplain : w.Plain) (hready : w.Ready h t session)
    (hrooted : between.tree.Rooted) (hdirectory : between.directory = h.directory)
    (hgrows : between.tree.GrowsIn (· = session) t)
    (hon : (Attempt.makeDirectory w.path).on between = (.ok (), h')) :
    ∃ place, w.Opened h h' session place := by
  obtain ⟨tree, hmake, rfl⟩ := Attempt.on_makeDirectory_eq_ok_iff.mp hon
  obtain ⟨q, hlocate, hvacant, rfl⟩ := makeDirectory_eq_ok_iff.mp hmake
  rw [hdirectory] at hlocate
  obtain ⟨hbelow, habove, hsame⟩ :=
    missing_of_path hplain hready hrooted hgrows hvacant hlocate
  have hput := updates_put between.tree .directory (ne_nil_of_vacant hvacant)
  have hfound := find_put_directory hlocate hvacant
  have hother : ∀ p, p ≠ q → (between.tree.put q .directory).get? p = t.get? p := fun p hp => by
    rw [hput p, if_neg hp, hsame p hp]
  refine ⟨q, hdirectory, hready.of_same fun p => ?_, find_followed hfound, hbelow,
    (hother _ (dropLast_ne (ne_nil_of_vacant hvacant))).trans habove, fun p hp hne => ?_⟩
  · rw [Host.withTree_tree, get?_clear]
    split
    · rename_i hp
      exact (hready.empty p hp.1 hp.2).symm
    · rename_i hp
      by_cases hpq : p = q
      · -- Not strictly below the session directory, which is therefore that of the project.
        have hsession : p = session := by
          by_contra hne
          exact hp ⟨hpq ▸ hbelow, hne⟩
        rw [hpq, (find_eq_ok_iff.mp hfound).2, ← hpq, hsession, (find_eq_ok_iff.mp hready.found).2]
      · exact hother p hpq
  · rw [Host.withTree_tree, hother p hne]
    apply hready.empty p (hbelow.trans hp)
    rintro rfl
    exact hne (hp.eq_of_length_le hbelow.length_le).symm

/-! ### Entering -/

theorem on_clear_eq_ok (hon : w.clear.on h = (.ok (), h')) :
    (h.tree.exists? h.directory w.root = .ok false ∧ h' = h) ∨
      ∃ t, h.tree.removeTree h.directory w.root = (t, .ok ()) ∧ h' = h.withTree t := by
  obtain ⟨present, after, hpresent, hrest⟩ := Attempt.on_bind_eq_ok_iff.mp hon
  rw [Attempt.on_isPresent, Prod.mk.injEq, Attempt.mapError_eq_ok_iff] at hpresent
  obtain ⟨hexists, rfl⟩ := hpresent
  cases present with
  | false => exact .inl ⟨hexists, (Prod.mk.inj hrest).2.symm⟩
  | true =>
      have hremove : (Attempt.removeTree w.root).on h = (.ok (), h') := hrest
      rw [Attempt.on_removeTree, Prod.mk.injEq, Attempt.mapError_eq_ok_iff] at hremove
      exact .inr ⟨_, Prod.ext rfl hremove.1, hremove.2.symm⟩

/-- While directories are made again on the way to an emptied session directory, it is the only one
that is missing. -/
structure Emptied (h : Host) (t : FileTree) (session : Place) (between : Host) : Prop where
  directory : between.directory = h.directory
  rooted : between.tree.Rooted
  grows : between.tree.GrowsIn (· = session) t

theorem Emptied.makeDirectory {ns more : List Text} (hready : w.Ready h t session)
    (hrooted : t.Rooted) (hroot : w.root = ⟨w.root.anchor, ns ++ more⟩)
    (hentry : ∃ entry ∈ ns, NamesEntry entry) (hempty : Emptied h t session between) :
    Emptied h t session ((Attempt.makeDirectory ⟨w.root.anchor, ns⟩).on between).2 := by
  rcases Directories.on_makeDirectory_cases between ⟨w.root.anchor, ns⟩ with
    ⟨q, hlocate, hvacant, hon⟩ | ⟨cause, -, hon⟩
  · have hfound := hready.found
    rw [hroot] at hfound
    obtain ⟨p, node, hthere⟩ := find_of_front hrooted (.inr hentry) hfound
    rw [hempty.directory] at hlocate
    have hsame := locate_of_extends hlocate hempty.grows.extends
    obtain ⟨hlocate', hnode⟩ := find_eq_ok_iff.mp hthere
    rw [hsame, Except.ok.injEq] at hlocate'
    subst hlocate'
    -- What is there when the session directory is, and is missing now, is the session directory.
    obtain ⟨rfl, hmade⟩ : q = session ∧ t.get? q = some .directory := by
      rcases hempty.grows q with hsame' | ⟨hq, -, hmade⟩
      · rw [hvacant, hnode] at hsame'
        simp at hsame'
      · exact ⟨hq, hmade⟩
    have hput := updates_put between.tree .directory (ne_nil_of_vacant hvacant)
    have habove : between.tree.get? q.dropLast = some .directory := by
      rcases hempty.grows q.dropLast with hsame' | ⟨hq, -⟩
      · rw [← hsame', hready.above]
      · exact absurd hq (dropLast_ne hready.ne_nil)
    rw [hon]
    refine ⟨hempty.directory, hempty.rooted.put (by simp [hvacant]) habove, fun p => ?_⟩
    simp only [Host.withTree_tree]
    rw [hput p]
    split
    · rename_i hp
      exact .inl (hp ▸ hmade)
    · exact hempty.grows p
  · rwa [hon]

theorem front_of_path {name : Text} {above : List Text} (hplain : w.Plain)
    (hsuffix : name :: above <:+ w.path.names.reverse) : above.reverse <+: w.root.names := by
  have hwhole : above.reverse ++ [name] <+: w.path.names := by
    rw [← List.reverse_cons, ← List.reverse_reverse w.path.names]
    exact List.reverse_prefix.mpr hsuffix
  have hroot : w.root.names <+: w.path.names := by
    rw [hplain.path_eq]
    exact List.prefix_append _ _
  have hshort : w.path.names.length ≤ w.root.names.length + 1 := by
    rw [hplain.path_eq, List.length_append]
    split <;> simp
  have hlength := hwhole.length_le
  rw [List.length_append, List.length_singleton] at hlength
  exact List.prefix_of_prefix_length_le ((List.prefix_append _ _).trans hwhole) hroot (by omega)

theorem opened_of_emptied (hplain : w.Plain) (hready : w.Ready h t session) (hrooted : t.Rooted)
    (hempty : Emptied h t session between)
    (hon : (Directories.makeNew w.path).on between = (.ok (), h')) :
    ∃ place, w.Opened h h' session place := by
  have hanchor : w.path.anchor = w.root.anchor := by rw [hplain.path_eq, hplain.root_eq]
  obtain ⟨last, hlast, hmade⟩ := Directories.makeDirectory_of_on_makeUp
    (motive := Emptied h t session) (fun name above hsuffix before hbefore hmissing after hafter => by
      rw [List.reverse_cons] at hmissing
      obtain ⟨more, hmore⟩ := front_of_path hplain hsuffix
      rw [hanchor]
      exact hafter.makeDirectory hready hrooted (by rw [hmore])
        (entry_of_makeDirectory_missing hmissing)) hempty hon
  rw [List.reverse_reverse] at hmade
  exact opened_of_makeDirectory hplain hready hlast.rooted hlast.directory hlast.grows hmade

theorem emptied_of_ready (hrooted : h.tree.Rooted)
    (hready : w.Ready h (h.tree.clear session) session) :
    Emptied h (h.tree.clear session) session
      (h.withTree ((h.tree.clear session).erase session)) where
  directory := rfl
  rooted := hrooted.removed (removed_erase_clear h.tree hready.ne_nil)
  grows := by
    intro p
    rw [Host.withTree_tree, updates_erase _ hready.ne_nil p]
    split
    · rename_i hp
      exact .inr ⟨hp, rfl, hp ▸ (find_eq_ok_iff.mp hready.found).2⟩
    · exact .inl rfl

theorem opened_of_absent {root : Place} (hplain : w.Plain) (hsound : h.Sound)
    (hcache : h.tree.find true h.directory w.cacheRoot = .ok (root, .directory))
    (habsent : h.tree.exists? h.directory w.root = .ok false)
    (hon : (Directories.makeNew w.path).on h = (.ok (), h')) :
    ∃ session place, w.Opened h h' session place ∧ h.tree.get? session = none := by
  by_cases hmark : isMark w.project = true
  · have hpath := hplain.path_of_mark hmark
    rw [hpath] at hon
    obtain ⟨between, hsound', hgrows, hmade⟩ := made_of_root hplain hsound hcache habsent hon
    obtain ⟨session, hready, hsession, hvacant⟩ := ready_of_made hsound' hgrows hmade
    rw [← hpath] at hmade
    obtain ⟨place, hopened⟩ := opened_of_makeDirectory hplain hready hsound'.rooted hgrows.directory
      hsession hmade
    exact ⟨session, place, hopened, hvacant⟩
  · have hpath := hplain.path_of_not_mark hmark
    rw [hpath] at hon
    rcases Directories.secures_of_on_makeUp_concat hon with hsecures | ⟨-, made, habove, hsecures⟩
    · -- The session directory would have to be there for that of the project to be made in it.
      obtain ⟨tree, hmake, -⟩ := Attempt.on_makeDirectory_eq_ok_iff.mp hsecures.made
      obtain ⟨q, hlocate, -, -⟩ := makeDirectory_eq_ok_iff.mp hmake
      obtain ⟨p, hfront⟩ := find_front hsound.rooted (.inl hsound.standing) hlocate (by simp)
      have hpresent : h.tree.find true h.directory w.root = .ok (p, .directory) := hfront
      simp [exists?, hpresent] at habsent
    · obtain ⟨between, hsound', hgrows, hroot⟩ := made_of_root hplain hsound hcache habsent habove
      obtain ⟨session, hready, -, hvacant⟩ := ready_of_made hsound' hgrows hroot
      have hrooted := Directories.on_makeDirectory_sound hsound' w.root
      have hdirectory := (Directories.on_makeDirectory_grows between w.root).directory
      rw [hroot] at hrooted hdirectory
      rw [← hpath] at hsecures
      obtain ⟨place, hopened⟩ := opened_of_makeDirectory hplain hready hrooted.rooted
        (hdirectory.trans hgrows.directory) (.refl _ _) hsecures.made
      exact ⟨session, place, hopened, hvacant⟩

theorem opened_of_enter (hplain : w.Plain) (hsound : h.Sound)
    (hcache : h.tree.isDirectory h.directory w.cacheRoot = true)
    (hon : w.enter.on h = (.ok (), h')) : ∃ session place, w.Opened h h' session place := by
  obtain ⟨root, hroot⟩ := isDirectory_iff.mp hcache
  obtain ⟨_, made, hmade, hlog⟩ := Attempt.on_bind_eq_ok_iff.mp hon
  rw [Attempt.on_rephrase_eq_ok_iff] at hmade
  obtain ⟨_, cleared, hclear, hnew⟩ := Attempt.on_bind_eq_ok_iff.mp hmade
  have hopened : ∃ session place, w.Opened h made session place := by
    rcases on_clear_eq_ok hclear with ⟨habsent, rfl⟩ | ⟨t, hremove, rfl⟩
    · obtain ⟨session, place, hopened, -⟩ := opened_of_absent hplain hsound hroot habsent hnew
      exact ⟨session, place, hopened⟩
    · obtain ⟨session, hready, rfl⟩ := ready_of_removeTree hsound.rooted hremove
      have hrooted := hsound.rooted.clear session
      have hempty := emptied_of_ready hsound.rooted hready
      exact ⟨session, opened_of_emptied hplain hready hrooted hempty hnew⟩
  rw [Attempt.on_lift] at hlog
  obtain ⟨-, rfl⟩ := Prod.mk.inj hlog
  obtain ⟨session, place, hready⟩ := hopened
  exact ⟨session, place, hready.directory, hready.ready, hready.found, hready.inside, hready.above,
    hready.empty⟩

/-! ### Leaving -/

theorem on_clear_of_found (hplain : w.Plain)
    (hfound : (h.tree.clear session).find false h.directory w.root = .ok (session, .directory))
    (hne : session ≠ []) :
    w.clear.on h = (.ok (), h.withTree ((h.tree.clear session).erase session)) := by
  have hextends := clear_extends h.tree session
  have hremove := removeTree_of_find (find_of_extends hfound hextends) hfound hne
    hplain.root_entry.not_up
  have hexists : h.tree.exists? h.directory w.root = .ok true := by
    rw [exists?, find_of_extends (find_followed hfound) hextends]
  rw [clear, Attempt.on_bind, Attempt.on_isPresent, hexists]
  show (Attempt.removeTree w.root).on h = _
  rw [Attempt.on_removeTree, hremove]
  rfl

theorem run_remove_of_found (hplain : w.Plain)
    (hfound : (h.tree.clear session).find false h.directory w.root = .ok (session, .directory))
    (hne : session ≠ []) :
    w.remove.run h = (true, h.withTree ((h.tree.clear session).erase session)) := by
  have hclear := on_clear_of_found hplain hfound hne
  rw [Attempt.on] at hclear
  show Procedure.run (Procedure.bind w.clear.run _) h = _
  rw [Procedure.run_bind, hclear]
  rfl

theorem run_remove (hplain : w.Plain) (hdirectory : h'.directory = h.directory)
    (hready : w.Ready h (h'.tree.clear session) session) :
    w.remove.run h' = (true, h'.withTree ((h'.tree.clear session).erase session)) :=
  run_remove_of_found hplain (hdirectory ▸ hready.found) hready.ne_nil

end Workspace

end ScriptWeave
