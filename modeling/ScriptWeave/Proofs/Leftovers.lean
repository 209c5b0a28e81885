import ScriptWeave.Proofs.Alike
import ScriptWeave.Proofs.Failure

namespace ScriptWeave

open FileTree

/-- The hosts differ at most at the session directory and below it, where each of them has a
directory or nothing. -/
structure Leftovers (cacheRoot : Path) (session : Text) (h h' : Host) (base : Place) : Prop where
  directory : h'.directory = h.directory
  found : h.tree.find true h.directory (cacheRoot.join ".build") = .ok (base, .directory)
  found' : h'.tree.find true h'.directory (cacheRoot.join ".build") = .ok (base, .directory)
  node : h.tree.get? (base ++ [session]) = none ∨
    h.tree.get? (base ++ [session]) = some .directory
  node' : h'.tree.get? (base ++ [session]) = none ∨
    h'.tree.get? (base ++ [session]) = some .directory
  outside : ∀ p, ¬ base ++ [session] <+: p → h'.tree.get? p = h.tree.get? p

theorem Leftovers.symm {cacheRoot : Path} {session : Text} {h h' : Host} {base : Place}
    (hleft : Leftovers cacheRoot session h h' base) : Leftovers cacheRoot session h' h base where
  directory := hleft.directory.symm
  found := hleft.found'
  found' := hleft.found
  node := hleft.node'
  node' := hleft.node
  outside := fun p hp => (hleft.outside p hp).symm

/-! ### Clearing -/

namespace Workspace

variable {w : Workspace} {h h' : Host} {base : Place}

theorem locate_of_null {t : FileTree} {directory : Place} {p : Path} {follow : Bool}
    (hnull : p.names.any (·.contains '\x00') = true) :
    t.locate follow directory p = .error .nullCharacter := by
  rw [locate, if_pos hnull]

/-- The path of a session directory is one that nobody can be asked about, or too long, or leads to
an entry of the directory of all sessions. -/
theorem root_cases (hplain : w.Plain)
    (hfound : h.tree.find true h.directory w.builds = .ok (base, .directory)) :
    w.root.names.any (·.contains '\x00') = true ∨
      (∀ follow, h.tree.locate follow h.directory w.root = .error .nameTooLong) ∨
      (Askable w.root ∧ IsEntry w.session) := by
  by_cases hnull : w.root.names.any (·.contains '\x00') = true
  · exact .inl hnull
  · by_cases htoo : isTooLong w.root = true
    · refine .inr (.inl fun follow => ?_)
      rw [locate, if_neg hnull, if_pos htoo]
    · by_cases hlong : nameLimit < (Text.encode w.session).length
      · refine .inr (.inl fun follow => ?_)
        obtain ⟨hlocate, hnode⟩ := find_eq_ok_iff.mp hfound
        have hmore : [w.session] ≠ [] := by simp
        have hwalk : h.tree.walk follow linkLimit (startOf h.directory w.root) w.root.names =
            .error .nameTooLong := by
          obtain ⟨less, hless⟩ := (locate_eq_ok_iff.mp hlocate).2.go_on hnode hmore
          rw [walk_long hplain.session_entry hlong] at hless
          rw [hplain.root_eq]
          exact hless
        rw [locate, if_neg hnull, if_neg htoo, hwalk]
      · exact .inr (.inr ⟨⟨Bool.eq_false_iff.mpr hnull, Bool.eq_false_iff.mpr htoo⟩,
          hplain.session_entry, Nat.le_of_not_lt hlong⟩)

theorem locate_root (hplain : w.Plain) (haskable : Askable w.root) (hentry : IsEntry w.session)
    (hfound : h.tree.find true h.directory w.builds = .ok (base, .directory)) :
    h.tree.locate false h.directory w.root = .ok (base ++ [w.session]) := by
  rw [← hplain.root_name] at hentry ⊢
  rw [← hplain.root_parent] at hfound
  exact locate_entry hfound haskable hentry

theorem on_clear_of_tooLong
    (hlong : ∀ follow, h.tree.locate follow h.directory w.root = .error .nameTooLong) :
    w.clear.on h = (.error ⟨.nameTooLong, w.root⟩, h) := by
  have hexists : h.tree.exists? h.directory w.root = .error .nameTooLong := by
    rw [exists?, find, hlong]
  rw [clear, Attempt.on_bind, Attempt.on_isPresent, hexists]
  rfl

theorem on_clear_of_missing
    (hmissing : h.tree.exists? h.directory w.root = .ok false) : w.clear.on h = (.ok (), h) := by
  rw [clear, Attempt.on_bind, Attempt.on_isPresent, hmissing]
  rfl

theorem on_clear_of_directory
    (hfound : h.tree.find false h.directory w.root = .ok (base, .directory)) :
    w.clear.on h = (Attempt.removeTree w.root).on h := by
  have hexists : h.tree.exists? h.directory w.root = .ok true := by
    rw [exists?, find_followed hfound]
  rw [clear, Attempt.on_bind, Attempt.on_isPresent, hexists]
  rfl

section Matching

variable (hplain : w.Plain) (hleft : Leftovers w.cacheRoot w.session h h' base)
  (haskable : Askable w.root) (hentry : IsEntry w.session)

include hplain hleft haskable hentry

theorem clear_matches_of_absent (hrooted : h.tree.Rooted)
    (habsent : h.tree.get? (base ++ [w.session]) = none)
    (hpresent : h'.tree.get? (base ++ [w.session]) = some .directory) :
    w.clear.Matches h h' := by
  have hlocate := locate_root hplain haskable hentry hleft.found
  have hlocate' := locate_root hplain haskable hentry hleft.found'
  have hmissing : h.tree.exists? h.directory w.root = .ok false := by
    rw [exists?, find_missing (locate_followed hlocate (by simp [habsent])) habsent]
  have hfound' : h'.tree.find false h'.directory w.root = .ok (base ++ [w.session], .directory) :=
    find_eq_ok_iff.mpr ⟨hlocate', hpresent⟩
  have hvacant : ∀ p, base ++ [w.session] <+: p → h.tree.get? p = none :=
    fun p hbelow => hrooted.vacant_below habsent hbelow
  have hextends : h.tree.Extends (h'.tree.clear (base ++ [w.session])) := by
    intro p n hp
    have houtside : ¬ base ++ [w.session] <+: p := by
      intro hbelow
      simp [hvacant p hbelow] at hp
    rwa [get?_clear, if_neg fun hbelow => houtside hbelow.1, hleft.outside p houtside]
  have hcleared : (h'.tree.clear (base ++ [w.session])).find false h'.directory w.root =
      .ok (base ++ [w.session], .directory) := by
    have hplace := locate_of_extends hlocate hextends
    rw [← hleft.directory] at hplace
    refine find_eq_ok_iff.mpr ⟨hplace, ?_⟩
    rwa [get?_clear, if_neg fun hbelow => hbelow.2 rfl]
  have hremove := removeTree_of_find hfound' hcleared (by simp) hplain.root_entry.not_up
  show (w.clear.on h').1 = (w.clear.on h).1 ∧ (w.clear.on h).2.Alike (w.clear.on h').2
  rw [on_clear_of_missing hmissing, on_clear_of_directory hfound', Attempt.on_removeTree, hremove]
  refine ⟨rfl, hleft.directory, fun p => ?_⟩
  rw [Host.withTree_tree, removed_erase_clear h'.tree (by simp) p]
  split
  · rename_i hbelow
    exact (hvacant p hbelow).symm
  · rename_i houtside
    exact hleft.outside p houtside

theorem clear_matches_of_directory
    (hpresent : h.tree.get? (base ++ [w.session]) = some .directory)
    (hpresent' : h'.tree.get? (base ++ [w.session]) = some .directory) : w.clear.Matches h h' := by
  have hfound : h.tree.find false h.directory w.root = .ok (base ++ [w.session], .directory) :=
    find_eq_ok_iff.mpr ⟨locate_root hplain haskable hentry hleft.found, hpresent⟩
  have hfound' : h'.tree.find false h'.directory w.root = .ok (base ++ [w.session], .directory) :=
    find_eq_ok_iff.mpr ⟨locate_root hplain haskable hentry hleft.found', hpresent'⟩
  have hclear : AgreeOn (fun _ => True) (h.tree.clear (base ++ [w.session]))
      (h'.tree.clear (base ++ [w.session])) := by
    intro p _
    rw [get?_clear, get?_clear]
    split
    · rfl
    · rename_i hp
      by_cases hbelow : base ++ [w.session] <+: p
      · have hsame : p = base ++ [w.session] := by
          by_contra hne
          exact hp ⟨hbelow, hne⟩
        rw [hsame, hpresent, hpresent']
      · exact hleft.outside p hbelow
  obtain ⟨hresult, htree⟩ := removeTree_of_clear hfound
    (hleft.directory ▸ hfound') hclear
  show (w.clear.on h').1 = (w.clear.on h).1 ∧ (w.clear.on h).2.Alike (w.clear.on h').2
  rw [on_clear_of_directory hfound, on_clear_of_directory hfound', Attempt.on_removeTree,
    Attempt.on_removeTree, hleft.directory, hresult]
  exact ⟨rfl, hleft.directory, fun p => htree p trivial⟩

theorem clear_matches (hrooted : h.tree.Rooted) (hrooted' : h'.tree.Rooted) :
    w.clear.Matches h h' := by
  rcases hleft.node with habsent | hpresent
  · rcases hleft.node' with habsent' | hpresent'
    · apply extensional_clear w
      refine ⟨hleft.directory, fun p => ?_⟩
      by_cases hbelow : base ++ [w.session] <+: p
      · rw [hrooted.vacant_below habsent hbelow, hrooted'.vacant_below habsent' hbelow]
      · exact hleft.outside p hbelow
    · exact clear_matches_of_absent hplain hleft haskable hentry hrooted habsent hpresent'
  · rcases hleft.node' with habsent' | hpresent'
    · exact (clear_matches_of_absent hplain hleft.symm haskable hentry hrooted' habsent' hpresent).symm
    · exact clear_matches_of_directory hplain hleft haskable hentry hpresent hpresent'

end Matching

theorem on_enter_of_error {e : FileError}
    (hon : (w.clear >>= fun _ => Directories.makeNew w.path).on h = (.error e, h)) :
    w.enter.on h = (.error (.workspace w.path e), h) := by
  have hmade : (Attempt.rephrase (ArtifactFault.workspace w.path)
      (w.clear >>= fun _ => Directories.makeNew w.path)).on h =
        (.error (.workspace w.path e), h) := by
    rw [Attempt.on_rephrase, hon]
    rfl
  show Attempt.on (Attempt.rephrase _ (w.clear >>= fun _ => Directories.makeNew w.path) >>= _) h = _
  rw [Attempt.on_bind, hmade]

theorem on_enter_of_null (hplain : w.Plain) (hnull : w.root.names.any (·.contains '\x00') = true) (h : Host) :
    w.enter.on h = (.error (.workspace w.path ⟨.nullCharacter, w.path⟩), h) := by
  have hmissing : h.tree.exists? h.directory w.root = .ok false := by
    rw [exists?, find, locate_of_null hnull]
  have hnull' : w.path.names.reverse.any (·.contains '\x00') = true := by
    rw [List.any_reverse, hplain.path_eq, List.any_append, hnull, Bool.true_or]
  apply on_enter_of_error
  rw [Attempt.on_bind, on_clear_of_missing hmissing]
  dsimp only
  rw [Directories.makeNew, Directories.on_makeUp_of_null hnull', List.reverse_reverse]

theorem on_enter_of_tooLong
    (hlong : ∀ follow, h.tree.locate follow h.directory w.root = .error .nameTooLong) :
    w.enter.on h = (.error (.workspace w.path ⟨.nameTooLong, w.root⟩), h) := by
  apply on_enter_of_error
  rw [Attempt.on_bind, on_clear_of_tooLong hlong]

theorem enter_of_leftovers (hplain : w.Plain) (hleft : Leftovers w.cacheRoot w.session h h' base)
    (hrooted : h.tree.Rooted) (hrooted' : h'.tree.Rooted) :
    w.enter.Matches h h' ∨
      ∃ fault, w.enter.on h = (.error fault, h) ∧ w.enter.on h' = (.error fault, h') := by
  have hmatches : Askable w.root → IsEntry w.session → w.enter.Matches h h' := by
    intro haskable hentry
    have hclear := clear_matches hplain hleft haskable hentry hrooted hrooted'
    have hmade := hclear.bind fun _ _ =>
      Directories.extensional_makeUp w.path.anchor false w.path.names.reverse
    apply (hmade.rephrase _).bind
    intro _ _
    exact Attempt.extensional_lift (Procedure.extensional_log _ _ _ _)
  rcases root_cases hplain hleft.found with hnull | hlong | ⟨haskable, hentry⟩
  · exact .inr ⟨_, on_enter_of_null hplain hnull h, on_enter_of_null hplain hnull h'⟩
  · rcases root_cases hplain hleft.found' with hnull | hlong' | ⟨haskable, hentry⟩
    · exact .inr ⟨_, on_enter_of_null hplain hnull h, on_enter_of_null hplain hnull h'⟩
    · exact .inr ⟨_, on_enter_of_tooLong hlong, on_enter_of_tooLong hlong'⟩
    · exact .inl (hmatches haskable hentry)
  · exact .inl (hmatches haskable hentry)

end Workspace

/-! ### Runs -/

namespace Sources

variable {h h' : Host} {sources : List Path} {p : Path}

/-- Reading a source stays outside a directory: no link below it is followed, and the file is
reached on a way that does not meet it. -/
structure Outside (h : Host) (place : Place) (p : Path) : Prop where
  links : ∀ q ∈ (h.tree.look h.directory p).2, place <+: q → q = place
  file : ∀ r, h.tree.resolveEnd? h.directory p = some r →
    ∀ q ∈ h.tree.wayTo true [] r, ¬ place <+: q

theorem read_of_leftovers {cacheRoot : Path} {session : Text} {base : Place}
    (hleft : Leftovers cacheRoot session h h' base) (hp : Outside h (base ++ [session]) p) :
    ((read p).on h').1 = ((read p).on h).1 := by
  apply read_agree hleft.directory
  · intro q hq target
    by_cases hbelow : base ++ [session] <+: q
    · obtain rfl := hp.links q hq hbelow
      have hlink : h.tree.get? (base ++ [session]) ≠ some (.link target) := by
        rcases hleft.node with hnode | hnode <;> simp [hnode]
      have hlink' : h'.tree.get? (base ++ [session]) ≠ some (.link target) := by
        rcases hleft.node' with hnode | hnode <;> simp [hnode]
      exact iff_of_false hlink' hlink
    · rw [hleft.outside q hbelow]
  · intro r hr q hq
    exact hleft.outside q (hp.file r hr q hq)

theorem read_of_alike (halike : h.Alike h') (p : Path) :
    ((read p).on h').1 = ((read p).on h).1 := by
  apply read_agree halike.directory
  · intro q _ target
    rw [halike.tree q]
  · intro r _
    exact halike.agreeOn _

theorem readAll_same
    (hsources : ∀ p ∈ sources, ((read p).on h').1 = ((read p).on h).1) :
    (readAll sources).on h' = (((readAll sources).on h).1, h') := by
  induction sources with
  | nil => rfl
  | cons p sources ih =>
      have hrest := ih fun q hq => hsources q (List.mem_cons_of_mem _ hq)
      have hfirst := hsources p List.mem_cons_self
      rw [readAll, Attempt.on_bind, Attempt.on_bind, on_read_eq p h', hfirst, on_read_eq p h]
      cases ((read p).on h).1 with
      | error fault => rfl
      | ok fragment =>
          dsimp only
          rw [Attempt.on_bind, Attempt.on_bind, hrest]
          rcases on_readAll sources h with ⟨fragments, hall, -⟩ | ⟨_, -, fault, -, hfailed⟩
          · rw [hall]
            rfl
          · rw [hfailed]

end Sources

namespace Build

variable {h h' : Host} {base : Place}

/-- Comes so far that it has a workspace. -/
def Enters (settings : Settings) (names : BuildNames) (sources : List Path) (h : Host) : Prop :=
  ∃ primary imported made entered,
    (Sources.readAll sources).on h = (.ok (primary :: imported), h) ∧
    (ensureCacheRoot settings.cacheRoot).on h = (.ok (), made) ∧
    (Workspace.mk settings.cacheRoot names.session (projectOf primary)).enter.on made =
      (.ok (), entered)

section Runs

variable {backEnd : BackEnd} {settings : Settings} {options : BuildOptions} {names : BuildNames}
variable {sources : List Path}

theorem extensional_ensureCacheRoot (root : Path) : (ensureCacheRoot root).Extensional h :=
  (Directories.extensional_makeUp _ _ _).rephrase _

theorem extensional_behind_enter (hbackEnd : backEnd.Extensional) (w : Workspace)
    (primary : Fragment) (imported : List Fragment) :
    ((runIn backEnd settings options names.copies w primary imported).followedBy do
      let _ ← w.remove).Extensional h := by
  apply (extensional_runIn hbackEnd _ _ _ _ _ _).followedBy
  exact Procedure.Extensional.bind (Workspace.extensional_remove w) (Procedure.extensional_done _)

theorem extensional_runFragments (hbackEnd : backEnd.Extensional) (primary : Fragment)
    (imported : List Fragment) :
    (runFragments backEnd settings options names primary imported).Extensional h := by
  apply ((extensional_ensureCacheRoot settings.cacheRoot).rephrase _).bind
  intro _ _
  apply ((Workspace.extensional_enter _).rephrase _).bind
  intro _ _
  exact extensional_behind_enter hbackEnd _ _ _

theorem on_ensureCacheRoot_of_builds {root : Path} (hsound : h.Sound)
    (hfound : h.tree.find true h.directory (root.join ".build") = .ok (base, .directory)) :
    (ensureCacheRoot root).on h = (.ok (), h) := by
  have hmore : [".build".toList] ≠ [] := by simp
  obtain ⟨p, hp⟩ := find_front hsound.rooted (.inl hsound.standing) (find_eq_ok_iff.mp hfound).1 hmore
  have hthere : h.tree.isDirectory h.directory root = true := isDirectory_iff.mpr ⟨p, hp⟩
  rw [ensureCacheRoot, Attempt.on_rephrase, Directories.on_ensure_of_isDirectory hthere]
  rfl

theorem on_runFragments_of_ensured {primary : Fragment} {imported : List Fragment}
    (hroot : (ensureCacheRoot settings.cacheRoot).on h = (.ok (), h)) :
    (runFragments backEnd settings options names primary imported).on h =
      ((Workspace.mk settings.cacheRoot names.session (projectOf primary)).enter.rephrase
          BuildFault.ofArtifact >>= fun _ =>
        (runIn backEnd settings options names.copies
          ⟨settings.cacheRoot, names.session, projectOf primary⟩ primary imported).followedBy do
            let _ ← (Workspace.mk settings.cacheRoot names.session (projectOf primary)).remove).on h := by
  rw [runFragments, Attempt.on_bind, Attempt.on_rephrase, hroot]
  rfl

theorem runFragments_of_leftovers {primary : Fragment} {imported : List Fragment}
    (hsound : h.Sound) (hsound' : h'.Sound) (hsession : NamesEntry names.session)
    (hwhole : '/' ∉ names.session) (hbackEnd : backEnd.Extensional)
    (hleft : Leftovers settings.cacheRoot names.session h h' base) :
    (runFragments backEnd settings options names primary imported).Matches h h' ∨
      ∃ fault, (runFragments backEnd settings options names primary imported).on h =
          (.error (.ofArtifact fault), h) ∧
        (runFragments backEnd settings options names primary imported).on h' =
          (.error (.ofArtifact fault), h') ∧
        (Workspace.mk settings.cacheRoot names.session (projectOf primary)).enter.on h =
          (.error fault, h) := by
  have hplain : (Workspace.mk settings.cacheRoot names.session (projectOf primary)).Plain :=
    ⟨hsession, hwhole, Path.no_slash_stem primary.path⟩
  have hroot := on_ensureCacheRoot_of_builds hsound hleft.found
  have hroot' := on_ensureCacheRoot_of_builds hsound' hleft.found'
  rcases Workspace.enter_of_leftovers hplain hleft hsound.rooted hsound'.rooted with
    hmatches | ⟨fault, hfail, hfail'⟩
  · left
    refine Attempt.Matches.of_eq ?_ (on_runFragments_of_ensured hroot)
      (on_runFragments_of_ensured hroot')
    apply (hmatches.rephrase BuildFault.ofArtifact).bind
    intro _ _
    exact extensional_behind_enter hbackEnd _ primary imported
  · refine .inr ⟨fault, ?_, ?_, hfail⟩
    · rw [on_runFragments_of_ensured hroot, Attempt.on_bind, Attempt.on_rephrase, hfail]
      rfl
    · rw [on_runFragments_of_ensured hroot', Attempt.on_bind, Attempt.on_rephrase, hfail']
      rfl

/-- A build cannot tell leftovers of its session from none, unless it ends on both hosts before it
has a workspace; then it has changed nothing. -/
theorem matches_of_leftovers (hsound : h.Sound) (hsound' : h'.Sound)
    (hsession : NamesEntry names.session) (hwhole : '/' ∉ names.session)
    (hbackEnd : backEnd.Extensional)
    (hdiffer : h.Alike h' ∨ ∃ base, Leftovers settings.cacheRoot names.session h h' base ∧
      ∀ p ∈ sources, Sources.Outside h (base ++ [names.session]) p) :
    (run backEnd settings options names sources).Matches h h' ∨
      (¬ Enters settings names sources h ∧
        ∃ fault, (run backEnd settings options names sources).on h = (.error fault, h) ∧
          (run backEnd settings options names sources).on h' = (.error fault, h')) := by
  have hsources : ∀ p ∈ sources, ((Sources.read p).on h').1 = ((Sources.read p).on h).1 := by
    intro p hp
    rcases hdiffer with halike | ⟨base, hleft, houtside⟩
    · exact Sources.read_of_alike halike p
    · exact Sources.read_of_leftovers hleft (houtside p hp)
  -- No source is among the leftovers, so that the hosts can only differ from here on.
  have hread' := Sources.readAll_same hsources
  rcases Sources.on_readAll sources h with ⟨fragments, hread, -⟩ | ⟨_, -, fault, -, hread⟩
  · rw [hread] at hread'
    cases fragments with
    | nil =>
        refine .inr ⟨?_, .noInput, on_run_of_none hread, on_run_of_none hread'⟩
        rintro ⟨_, _, _, _, hsome, -⟩
        simp [hread] at hsome
    | cons primary imported =>
        rcases hdiffer with halike | ⟨base, hleft, -⟩
        · have hfragments : (runFragments backEnd settings options names primary imported).Matches
              h h' := extensional_runFragments hbackEnd primary imported h' halike
          exact .inl (hfragments.of_eq (on_run_of_read hread) (on_run_of_read hread'))
        · rcases runFragments_of_leftovers hsound hsound' hsession hwhole hbackEnd hleft with
            hfragments | ⟨fault, hfail, hfail', henter⟩
          · exact .inl (hfragments.of_eq (on_run_of_read hread) (on_run_of_read hread'))
          · rw [← on_run_of_read hread] at hfail
            rw [← on_run_of_read hread'] at hfail'
            refine .inr ⟨?_, _, hfail, hfail'⟩
            rintro ⟨primary', imported', made, entered, hsome, hmade, hentered⟩
            rw [hread] at hsome
            obtain ⟨rfl, rfl⟩ := List.cons.inj (Except.ok.inj (Prod.mk.inj hsome).1)
            rw [on_ensureCacheRoot_of_builds hsound hleft.found] at hmade
            obtain ⟨-, rfl⟩ := Prod.mk.inj hmade
            simp [henter] at hentered
  · rw [hread] at hread'
    refine .inr ⟨?_, .ofSources fault, on_run_of_unread hread, on_run_of_unread hread'⟩
    rintro ⟨_, _, _, _, hsome, -⟩
    simp [hread] at hsome

end Runs

/-! ### Hosts with and without leftovers -/

section Hosts

theorem get?_append_of_outside {place p : Place} (nodes extra : List (Place × Node))
    (hextra : ∀ e ∈ extra, place <+: e.1) (hp : ¬ place <+: p) :
    (FileTree.mk (nodes ++ extra)).get? p = (FileTree.mk nodes).get? p := by
  have hnone : extra.find? (fun e => Place.same e.1 p) = none := by
    rw [List.find?_eq_none]
    intro e he hsame
    exact hp (Place.same_iff.mp hsame ▸ hextra e he)
  rw [get?, get?, List.find?_append, hnone, Option.or_none]

/-- A cache root with a directory for sessions, and what is in it. -/
def hostOf (sources sessions : List (Place × Node)) : Host where
  tree := ⟨(sources ++ [(["c".toList], .directory), (["c".toList, ".build".toList], .directory)]) ++
    sessions⟩

/-- The output of a build that was broken off. -/
def staleOutput : List (Place × Node) :=
  [(["c".toList, ".build".toList, "run".toList], .directory),
    (["c".toList, ".build".toList, "run".toList, "a.dll".toList], .file [0] false)]

theorem leftovers_staleOutput (sources : List (Place × Node))
    (hfound : ∀ sessions, sessions = [] ∨ sessions = staleOutput →
      (hostOf sources sessions).tree.find true [] "/c/.build" =
        .ok (["c".toList, ".build".toList], .directory))
    (hnode : (hostOf sources []).tree.get? ["c".toList, ".build".toList, "run".toList] = none)
    (hnode' : (hostOf sources staleOutput).tree.get? ["c".toList, ".build".toList, "run".toList] =
      some .directory) :
    Leftovers "/c" "run" (hostOf sources []) (hostOf sources staleOutput)
      ["c".toList, ".build".toList] where
  directory := rfl
  found := hfound _ (.inl rfl)
  found' := hfound _ (.inr rfl)
  node := .inl hnode
  node' := .inr hnode'
  outside := by
    intro p hp
    have hbelow : ∀ e ∈ staleOutput, ["c".toList, ".build".toList, "run".toList] <+: e.1 := by
      simp [staleOutput]
    have hstale : (hostOf sources staleOutput).tree.get? p = _ := get?_append_of_outside _ _ hbelow hp
    have hempty : (hostOf sources []).tree.get? p = _ := get?_append_of_outside _ [] (by simp) hp
    rw [hstale, hempty]

/-- An output that an earlier build has left is not published. -/
theorem matches_of_leftovers_stale_output :
    let sources : List (Place × Node) := [(["a.csx".toList], .file (Text.encode "x") false)]
    let settings : Settings := { cacheRoot := "/c" }
    let names : BuildNames := ⟨"run", ⟨"t", "u"⟩⟩
    let backEnd : BackEnd := fun _ => pure { success := true, binary := some [1] }
    let build := run backEnd settings { output := "/a.dll" } names ["/a.csx"]
    build.Matches (hostOf sources []) (hostOf sources staleOutput) := by
  intro sources settings names backEnd build
  have hleft : Leftovers settings.cacheRoot names.session (hostOf sources [])
      (hostOf sources staleOutput) ["c".toList, ".build".toList] := by
    apply leftovers_staleOutput sources
    · rintro _ (rfl | rfl) <;> decide +kernel
    · decide +kernel
    · decide +kernel
  have hsound : (hostOf sources []).Sound := ⟨rooted_of_nodes (by decide +kernel), rfl⟩
  have hsound' : (hostOf sources staleOutput).Sound := ⟨rooted_of_nodes (by decide +kernel), rfl⟩
  have hsession : NamesEntry names.session := namesEntry_of_length (by decide)
  have hwhole : '/' ∉ names.session := by decide
  have hbackEnd : backEnd.Extensional := fun _ _ => Attempt.extensional_pure _
  have houtside : ∀ p ∈ [("/a.csx" : Path)], Sources.Outside (hostOf sources [])
      ["c".toList, ".build".toList, "run".toList] p := by
    have hlinks : ((hostOf sources []).tree.look (hostOf sources []).directory "/a.csx").2 =
        [["a.csx".toList]] := by
      decide +kernel
    have hend : (hostOf sources []).tree.resolveEnd? (hostOf sources []).directory "/a.csx" =
        some ("/a.csx" : Path) := by
      decide +kernel
    have hway : (hostOf sources []).tree.wayTo true [] "/a.csx" = [[], ["a.csx".toList]] := by
      decide +kernel
    rw [List.forall_mem_singleton]
    refine ⟨fun q hq => ?_, fun r hr q hq => ?_⟩
    · rw [hlinks, List.mem_singleton] at hq
      rw [hq]
      decide
    · rw [hend, Option.some.injEq] at hr
      rw [← hr, hway] at hq
      rcases List.mem_pair.mp hq with rfl | rfl <;> decide
  have hbuilt : (build.on (hostOf sources [])).1 = .ok (.built "/a.dll" none []) := by
    decide +kernel
  have hends : build.Matches _ _ ∨ _ := matches_of_leftovers hsound hsound' hsession hwhole hbackEnd
    (.inr ⟨_, hleft, houtside⟩)
  rcases hends with hmatches | ⟨-, fault, hfail, -⟩
  · exact hmatches
  · rw [Attempt.on_eq hbuilt] at hfail
    simp at hfail

/-- Leftovers stay where the build has no source to read. -/
theorem leftovers_stay_of_missing_source :
    let build := run (fun _ => pure { success := true, binary := some [1] }) { cacheRoot := "/c" }
      { output := "/a.dll" } ⟨"run", ⟨"t", "u"⟩⟩ ["/a.csx"]
    Leftovers "/c" "run" (hostOf [] []) (hostOf [] staleOutput) ["c".toList, ".build".toList] ∧
      (build.on (hostOf [] staleOutput)).2.tree.get? ["c".toList, ".build".toList, "run".toList] ≠
        (build.on (hostOf [] [])).2.tree.get? ["c".toList, ".build".toList, "run".toList] := by
  intro build
  refine ⟨?_, by decide +kernel⟩
  apply leftovers_staleOutput []
  · rintro _ (rfl | rfl) <;> decide +kernel
  · decide +kernel
  · decide +kernel

end Hosts

end Build

end ScriptWeave
