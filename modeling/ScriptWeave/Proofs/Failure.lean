import ScriptWeave.Proofs.Build
import ScriptWeave.Proofs.Workspace

namespace ScriptWeave

open FileTree

/-- Changes nothing but what is below the directory of the document. -/
def BackEnd.Confined (backEnd : BackEnd) : Prop :=
  ∀ request h place, h.tree.find true h.directory request.path.parent = .ok (place, .directory) →
    ∀ p, (place <+: p → p = place) → ((backEnd request).on h).2.tree.get? p = h.tree.get? p

namespace Sources

variable {h h' : Host} {sources : List Path}

theorem keeps_read (p : Path) : (read p).Keeps id := by
  apply Attempt.Keeps.bind
  · exact Attempt.Keeps.rephrase (fun _ => rfl) _
  · intro resolved
    apply Attempt.Keeps.bind
    · exact Attempt.Keeps.rephrase (fun _ => rfl) _
    · intro content
      exact Attempt.keeps_ofOutcome _

theorem on_read_eq (p : Path) (h : Host) : (read p).on h = (((read p).on h).1, h) :=
  Prod.ext rfl (keeps_read p h)

theorem on_readAll (sources : List Path) (h : Host) :
    (∃ fragments, (readAll sources).on h = (.ok fragments, h) ∧
      ∀ p ∈ sources, ∃ fragment, ((read p).on h).1 = .ok fragment) ∨
    ∃ p ∈ sources, ∃ fault, ((read p).on h).1 = .error fault ∧
      (readAll sources).on h = (.error fault, h) := by
  induction sources with
  | nil => exact .inl ⟨[], rfl, by simp⟩
  | cons p sources ih =>
      rw [readAll, Attempt.on_bind, on_read_eq p h]
      cases hread : ((read p).on h).1 with
      | error fault => exact .inr ⟨p, List.mem_cons_self, fault, hread, rfl⟩
      | ok fragment =>
          dsimp only
          rw [Attempt.on_bind]
          rcases ih with ⟨fragments, hall, heach⟩ | ⟨p', hp', fault, hread', hfailed⟩
          · rw [hall]
            refine .inl ⟨fragment :: fragments, rfl, ?_⟩
            rw [List.forall_mem_cons]
            exact ⟨⟨fragment, hread⟩, heach⟩
          · rw [hfailed]
            exact .inr ⟨p', List.mem_cons_of_mem _ hp', fault, hread', rfl⟩

end Sources

namespace Build

variable {α : Type} {h h' entered : Host} {w : Workspace} {session place : Place}
variable {result : Except BuildFault BuildResult}

theorem logEach_tree {logOne : α → Procedure Unit}
    (hone : ∀ a h, ((logOne a).run h).2.tree = h.tree) (as : List α) (h : Host) :
    ((logEach logOne as).run h).2.tree = h.tree := by
  induction as generalizing h with
  | nil => rfl
  | cons a as ih =>
      show (Procedure.run (Procedure.bind (logOne a) _) h).2.tree = h.tree
      rw [Procedure.run_bind, ih, hone]

theorem keeps_merge (hoist : Bool) (primary : Fragment) (imported : List Fragment) :
    (merge hoist primary imported).Keeps Host.tree := by
  apply (Attempt.keeps_ofOutcome _).bind
  intro imports
  apply (Attempt.keeps_lift (logEach_tree (fun _ _ => rfl) _)).bind
  intro _
  apply (Attempt.keeps_ofOutcome _).bind
  intro document
  exact (Attempt.keeps_lift fun _ => rfl).bind fun _ => Attempt.keeps_pure _

theorem resolveReferences_tree (settings : Settings) (references : List Path) (h : Host) :
    ((resolveReferences settings references).run h).2.tree = h.tree := by
  show (Procedure.run (Procedure.bind _ _) h).2.tree = h.tree
  rw [Procedure.run_bind]
  exact logEach_tree (fun _ _ => rfl) _ h

theorem on_emit (backEnd : BackEnd) (request : EmitRequest) (h : Host) :
    ∃ log, (emit backEnd request).on h =
      (((backEnd request).on h).1.mapError fun fault => .tool (.invocation fault.toInvocation),
        { ((backEnd request).on h).2 with log }) := by
  rw [emit, Attempt.on_bind, Attempt.on_lift]
  dsimp only
  rw [Attempt.on_bind, Attempt.on_outcome]
  exact ⟨_, rfl⟩

/-- Ends without an output, and not for trouble with the files of the build itself. -/
def Unbuilt : Except BuildFault BuildResult → Prop
  | .ok (.failed _) | .error (.tool (.source _)) | .error (.tool (.invocation _)) => True
  | _ => False

theorem not_unbuilt_ofArtifact (fault : ArtifactFault) : ¬ Unbuilt (.error (.ofArtifact fault)) := by
  rw [BuildFault.ofArtifact]
  split
  · split <;> exact id
  · exact id

theorem not_unbuilt_ofPublication (fault : Publication.Fault) :
    ¬ Unbuilt (.error (.ofPublication fault)) := by
  cases fault with
  | artifact fault => exact not_unbuilt_ofArtifact fault
  | nameless path => exact id

theorem conclude_of_unbuilt {options : BuildOptions} {names : CopyNames} {origin : Origin}
    {emitted : EmitResult} (hon : (conclude options names w origin emitted).on h = (result, h'))
    (hunbuilt : Unbuilt result) : h' = h := by
  rw [conclude] at hon
  split at hon
  · split at hon
    · exact (Prod.mk.inj hon).2.symm
    · exfalso
      rcases Attempt.on_rephrase_bind_cases hon with ⟨fault, -, rfl⟩ | ⟨paths, between, -, hrest⟩
      · exact not_unbuilt_ofArtifact fault hunbuilt
      · rcases Attempt.on_rephrase_bind_cases hrest with ⟨fault, -, rfl⟩ | ⟨outputs, after, -, hpure⟩
        · exact not_unbuilt_ofPublication fault hunbuilt
        · obtain ⟨rfl, -⟩ := Prod.mk.inj hpure
          exact hunbuilt
  · exact (Prod.mk.inj hon).2.symm

theorem document_of_write {name : Text} {content : Bytes}
    (hopened : w.Opened h entered session place) (hname : '/' ∉ name)
    (hon : (Attempt.write (w.path.join (Path.ofText name)) content).on entered = (.ok (), h')) :
    (w.path.join (Path.ofText name)).parent = w.path ∧ (w.path.join (Path.ofText name)).name = name ∧
      NamesEntry name ∧ ∃ tree, h' = entered.withTree tree ∧
        entered.tree.Updates (place ++ [name]) (some (.file content false)) tree := by
  have hfound := hopened.found
  rw [← hopened.directory] at hfound
  obtain ⟨tree, hwritten, -⟩ := Attempt.on_write_eq_ok_iff.mp hon
  have hentry := namesEntry_of_writeFile hfound hopened.above hname hwritten
  have hpath := w.path.join_entry hentry hname
  have hparent : (w.path.join (Path.ofText name)).parent = w.path := by
    rw [hpath, Path.parent_concat]
  have hlast : (w.path.join (Path.ofText name)).name = name := by
    rw [hpath, Path.name_concat]
  have hvacant : entered.tree.get? (place ++ [name]) = none :=
    hopened.empty _ (List.prefix_append _ _) (by simp)
  rw [← hparent] at hfound
  rw [← hlast] at hvacant
  have hnew := Publication.on_write_vacant (.refl _) hfound (hlast.symm ▸ hentry) hvacant hon
  rw [hlast] at hnew
  exact ⟨hparent, hlast, hentry, hnew.2⟩

theorem on_runIn_of_unbuilt {backEnd : BackEnd} {settings : Settings} {options : BuildOptions}
    {names : CopyNames} {primary : Fragment} {imported : List Fragment}
    (hon : (runIn backEnd settings options names w primary imported).on entered = (result, h'))
    (hunbuilt : Unbuilt result) :
    h'.tree = entered.tree ∨ ∃ merged content written request ready,
      merged.tree = entered.tree ∧ merged.directory = entered.directory ∧
      (Attempt.write (w.path.join (Path.ofText primary.name)) content).on merged =
        (.ok (), written) ∧
      ready.tree = written.tree ∧ ready.directory = written.directory ∧
      h'.tree = ((backEnd request).on ready).2.tree ∧
      request.path = w.path.join (Path.ofText primary.name) := by
  have hmerged := keeps_merge settings.hoist primary imported entered
  have hmerged' := Attempt.on_directory (merge settings.hoist primary imported) entered
  rcases Attempt.on_bind_cases hon with ⟨fault, hmerge, -⟩ | ⟨document, merged, hmerge, hrest⟩
  · rw [hmerge] at hmerged
    exact .inl hmerged
  · rw [hmerge] at hmerged hmerged'
    rcases Attempt.on_rephrase_bind_cases hrest with ⟨e, -, rfl⟩ | ⟨_, written, hwrite, hrest⟩
    · exact absurd hunbuilt (not_unbuilt_ofArtifact _)
    · rw [Attempt.on_bind, Attempt.on_lift] at hrest
      dsimp only at hrest
      have htree := resolveReferences_tree settings options.references written
      have hdirectory := Attempt.run_directory (resolveReferences settings options.references) written
      rcases Attempt.on_bind_cases hrest with ⟨fault, hemit, -⟩ | ⟨emitted, after, hemit, hconclude⟩
      · obtain ⟨log, hlog⟩ := on_emit backEnd _ _
        rw [hlog] at hemit
        obtain ⟨-, rfl⟩ := Prod.mk.inj hemit
        exact .inr ⟨merged, _, written, _, _, hmerged, hmerged', hwrite, htree, hdirectory, rfl, rfl⟩
      · obtain ⟨log, hlog⟩ := on_emit backEnd _ _
        rw [hlog] at hemit
        obtain ⟨-, rfl⟩ := Prod.mk.inj hemit
        rw [conclude_of_unbuilt hconclude hunbuilt]
        exact .inr ⟨merged, _, written, _, _, hmerged, hmerged', hwrite, htree, hdirectory, rfl, rfl⟩

theorem kept_of_runIn {backEnd : BackEnd} {settings : Settings} {options : BuildOptions}
    {names : CopyNames} {primary : Fragment} {imported : List Fragment} {p : Place}
    (hconfined : backEnd.Confined) (hopened : w.Opened h entered session place)
    (hon : (runIn backEnd settings options names w primary imported).on entered = (result, h'))
    (hunbuilt : Unbuilt result) (hp : place <+: p → p = place) :
    h'.tree.get? p = entered.tree.get? p := by
  rcases on_runIn_of_unbuilt hon hunbuilt with htree |
    ⟨merged, content, written, request, ready, hmerged, hmerged', hwrite, hready, hready', htree, hpath⟩
  · rw [htree]
  · have hslash : '/' ∉ primary.name := Path.no_slash_name primary.path
    obtain ⟨hparent, -, -, tree, rfl, hupdates⟩ := document_of_write (hopened.of_same hmerged hmerged')
      hslash hwrite
    have hvacant : merged.tree.get? (place ++ [primary.name]) = none := by
      rw [hmerged]
      exact hopened.empty _ (List.prefix_append _ _) (by simp)
    have hway : ready.tree.find true ready.directory request.path.parent = .ok (place, .directory) := by
      have hfound := hopened.found
      rw [← hopened.directory, ← hmerged, ← hmerged'] at hfound
      rw [hready, hready', hpath, hparent]
      exact find_of_extends hfound (hupdates.extends (.refl _) hvacant)
    have hdocument : p ≠ place ++ [primary.name] := by
      rintro rfl
      have hplace := hp (List.prefix_append _ _)
      simp at hplace
    rw [htree, hconfined request ready place hway p hp, hready, Host.withTree_tree,
      hupdates.other hdocument, hmerged]

/-! ### Reports -/

theorem isFailure_of_failures {origin : Origin} {emitted : EmitResult} :
    failures origin emitted ≠ [] ∧ ∀ d ∈ failures origin emitted, d.isFailure = true := by
  rw [failures]
  split
  · refine ⟨by simp, fun d hd => ?_⟩
    rw [List.mem_singleton.mp hd]
    rfl
  · rename_i ds hne
    refine ⟨hne, fun d hd => ?_⟩
    obtain ⟨told, htold, rfl⟩ := List.mem_map.mp hd
    exact (List.mem_filter.mp htold).2

theorem isFailure_of_conclude {options : BuildOptions} {names : CopyNames} {origin : Origin}
    {emitted : EmitResult} {ds : List Diagnostic}
    (hon : (conclude options names w origin emitted).on h = (.ok (.failed ds), h')) :
    ds ≠ [] ∧ ∀ d ∈ ds, d.isFailure = true := by
  have hfailed : ∀ told, (.ok (.failed told), h) =
      ((.ok (.failed ds), h') : Except BuildFault BuildResult × Host) → told = ds := by
    intro told heq
    exact BuildResult.failed.inj (Except.ok.inj (Prod.mk.inj heq).1)
  rw [conclude] at hon
  split at hon
  · split at hon
    · rw [← hfailed _ hon]
      refine ⟨by simp, fun d hd => ?_⟩
      rw [List.mem_singleton.mp hd]
      rfl
    · simp only [Attempt.on_bind_eq_ok_iff] at hon
      obtain ⟨_, _, -, _, _, -, hpure⟩ := hon
      simp [Attempt.on_pure] at hpure
  · rw [← hfailed _ hon]
    exact isFailure_of_failures

theorem conclude_of_runIn {backEnd : BackEnd} {settings : Settings} {options : BuildOptions}
    {names : CopyNames} {primary : Fragment} {imported : List Fragment} {built : BuildResult}
    (hon : (runIn backEnd settings options names w primary imported).on entered =
      (.ok built, h')) :
    ∃ origin emitted before, (conclude options names w origin emitted).on before = (.ok built, h') := by
  simp only [runIn, Attempt.on_bind_eq_ok_iff] at hon
  obtain ⟨document, _, -, _, _, -, _, _, -, emitted, before, -, hconclude⟩ := hon
  exact ⟨_, emitted, before, hconclude⟩

/-! ### Runs -/

section Runs

variable {backEnd : BackEnd} {settings : Settings} {options : BuildOptions} {names : BuildNames}
variable {sources : List Path} {primary : Fragment} {imported : List Fragment}

def runFragments (backEnd : BackEnd) (settings : Settings) (options : BuildOptions)
    (names : BuildNames) (primary : Fragment) (imported : List Fragment) :
    Attempt BuildFault BuildResult := do
  let workspace : Workspace := ⟨settings.cacheRoot, names.session, projectOf primary⟩
  (ensureCacheRoot settings.cacheRoot).rephrase .ofArtifact
  workspace.enter.rephrase .ofArtifact
  (runIn backEnd settings options names.copies workspace primary imported).followedBy do
    let _ ← workspace.remove

theorem on_run_of_unread {fault : Sources.Fault}
    (hread : (Sources.readAll sources).on h = (.error fault, h)) :
    (run backEnd settings options names sources).on h = (.error (.ofSources fault), h) := by
  rw [run, Attempt.on_bind, Attempt.on_rephrase, hread]
  rfl

theorem on_run_of_none (hread : (Sources.readAll sources).on h = (.ok [], h)) :
    (run backEnd settings options names sources).on h = (.error .noInput, h) := by
  rw [run, Attempt.on_bind, Attempt.on_rephrase, hread]
  rfl

theorem on_run_of_read (hread : (Sources.readAll sources).on h = (.ok (primary :: imported), h)) :
    (run backEnd settings options names sources).on h =
      (runFragments backEnd settings options names primary imported).on h := by
  rw [run, Attempt.on_bind, Attempt.on_rephrase, hread]
  rfl

theorem on_runFragments_cases
    (hon : (runFragments backEnd settings options names primary imported).on h = (result, h')) :
    (∃ fault, result = .error (.ofArtifact fault)) ∨ ∃ made entered last,
      (ensureCacheRoot settings.cacheRoot).on h = (.ok (), made) ∧
      (Workspace.mk settings.cacheRoot names.session (projectOf primary)).enter.on made =
        (.ok (), entered) ∧
      (runIn backEnd settings options names.copies
        ⟨settings.cacheRoot, names.session, projectOf primary⟩ primary imported).on entered =
          (result, last) ∧
      h' = ((Workspace.mk settings.cacheRoot names.session (projectOf primary)).remove.run last).2 := by
  rcases Attempt.on_rephrase_bind_cases hon with ⟨fault, -, rfl⟩ | ⟨_, made, hmade, hrest⟩
  · exact .inl ⟨fault, rfl⟩
  · rcases Attempt.on_rephrase_bind_cases hrest with ⟨fault, -, rfl⟩ | ⟨_, entered, hentered, hrest⟩
    · exact .inl ⟨fault, rfl⟩
    · rw [Attempt.on_followedBy, Prod.mk.injEq] at hrest
      obtain ⟨hresult, rfl⟩ := hrest
      refine .inr ⟨made, entered, _, hmade, hentered, Attempt.on_eq hresult, ?_⟩
      show (Procedure.run (Procedure.bind _ _) _).2 = _
      rw [Procedure.run_bind]
      rfl

/-- The session directory is gone, and of the rest nothing has changed but for directories that lead
to the directory of all sessions. -/
structure Untraced (cacheRoot : Path) (session : Text) (before after : Host) (place : Place) : Prop where
  last : (before.tree.wayTo false before.directory
    ((cacheRoot.join ".build").join (Path.ofText session))).getLast? = some place
  gone : ∀ p, place <+: p → after.tree.get? p = none
  kept : ∀ p, ¬ place <+: p → after.tree.get? p = before.tree.get? p ∨
    (p ∈ before.tree.wayTo true before.directory (cacheRoot.join ".build") ∧
      before.tree.get? p = none ∧ after.tree.get? p = some .directory)

theorem ready_of_runIn {copies : CopyNames} {last : Host} (hconfined : backEnd.Confined)
    (hopened : w.Opened h entered session place)
    (hon : (runIn backEnd settings options copies w primary imported).on entered = (result, last))
    (hunbuilt : Unbuilt result) :
    last.directory = h.directory ∧ w.Ready h (last.tree.clear session) session := by
  have hdirectory := Attempt.on_directory
    (runIn backEnd settings options copies w primary imported) entered
  rw [hon] at hdirectory
  refine ⟨hdirectory.trans hopened.directory, hopened.ready.of_same fun p => ?_⟩
  rw [get?_clear, get?_clear]
  split
  · rfl
  · rename_i houtside
    apply kept_of_runIn hconfined hopened hon hunbuilt
    intro hbelow
    -- Not below the session directory, so that `p`, `place` and `session` are one.
    have hp : p = session := by
      by_contra hne
      exact houtside ⟨hopened.inside.trans hbelow, hne⟩
    subst hp
    exact hopened.inside.eq_of_length_le hbelow.length_le

theorem untraced_of_removed {made after : Host} {t : FileTree}
    (hgrows : h.GrowsIn (· ∈ h.tree.wayTo true h.directory w.cacheRoot) made)
    (hready : w.Ready made (t.clear session) session) (hremoved : Removed t session after.tree) :
    Untraced w.cacheRoot w.session h after session where
  last := by
    have hlast := hready.last
    rwa [hgrows.directory, hgrows.tree.wayTo] at hlast
  gone := by
    intro p hbelow
    rw [hremoved p, if_pos hbelow]
  kept := by
    intro p houtside
    rw [hremoved p, if_neg houtside]
    have hway : h.tree.wayTo true h.directory w.cacheRoot ⊆ h.tree.wayTo true h.directory w.builds :=
      way_subset fun _ => .inl rfl
    have hbefore := hgrows.tree p
    have hafter := hready.outside p houtside
    rw [get?_clear, if_neg fun hbelow => houtside hbelow.1, hgrows.directory, hgrows.tree.wayTo]
      at hafter
    rcases hafter with hsame | ⟨hp, hvacant, hdirectory⟩
    · rcases hbefore with hsame' | ⟨hp, hvacant, hdirectory⟩
      · exact .inl (hsame.trans hsame')
      · exact .inr ⟨hway hp, hvacant, hsame.trans hdirectory⟩
    · rcases hbefore with hsame' | ⟨-, -, hdirectory'⟩
      · exact .inr ⟨hp, hsame'.symm.trans hvacant, hdirectory⟩
      · simp [hdirectory'] at hvacant

theorem untraced_of_unbuilt (hsound : h.Sound) (hsession : NamesEntry names.session) (hwhole : '/' ∉ names.session)
    (hconfined : backEnd.Confined)
    (hon : (runFragments backEnd settings options names primary imported).on h = (result, h'))
    (hunbuilt : Unbuilt result) :
    ∃ place, Untraced settings.cacheRoot names.session h h' place := by
  rcases on_runFragments_cases hon with ⟨fault, rfl⟩ |
    ⟨made, entered, last, hmade, hentered, hrun, rfl⟩
  · exact absurd hunbuilt (not_unbuilt_ofArtifact fault)
  · have hplain : (Workspace.mk settings.cacheRoot names.session (projectOf primary)).Plain :=
      ⟨hsession, hwhole, Path.no_slash_stem primary.path⟩
    rw [ensureCacheRoot, Attempt.on_rephrase_eq_ok_iff] at hmade
    have hgrows := Directories.on_ensure_growsIn h settings.cacheRoot
    have hsound' := Directories.on_ensure_sound hsound settings.cacheRoot
    have hcache := Directories.isDirectory_of_on_ensure hmade
    rw [hmade] at hgrows hsound'
    obtain ⟨session, place, hopened⟩ := Workspace.opened_of_enter hplain hsound' hcache hentered
    obtain ⟨hdirectory, hready⟩ := ready_of_runIn hconfined hopened hrun hunbuilt
    rw [Workspace.run_remove hplain hdirectory hready]
    exact ⟨session, untraced_of_removed hgrows hready (removed_erase_clear last.tree hready.ne_nil)⟩

/-- A build whose sources cannot all be read changes nothing. One that fails later without an output
leaves no trace, and what it reports, if it ends in a report, is failures. -/
theorem leaves_no_trace (hsound : h.Sound) (hsession : NamesEntry names.session)
    (hwhole : '/' ∉ names.session) (hconfined : backEnd.Confined)
    (hon : (run backEnd settings options names sources).on h = (result, h')) :
    ((∃ p ∈ sources, ∃ fault, ((Sources.read p).on h).1 = .error fault) →
      h' = h ∧ ∃ p ∈ sources, ∃ fault, ((Sources.read p).on h).1 = .error fault ∧
        result = .error (.ofSources fault)) ∧
    ((∀ p ∈ sources, ∃ fragment, ((Sources.read p).on h).1 = .ok fragment) → Unbuilt result →
      ∃ place, Untraced settings.cacheRoot names.session h h' place) ∧
    ∀ ended, result = .ok ended → ended.fault? ≠ none →
      ∃ ds, ended = .failed ds ∧ ds ≠ [] ∧ ∀ d ∈ ds, d.isFailure = true := by
  rcases Sources.on_readAll sources h with ⟨fragments, hread, heach⟩ |
    ⟨p, hp, fault, hfault, hread⟩
  · have hnone : ¬∃ p ∈ sources, ∃ fault, ((Sources.read p).on h).1 = .error fault := by
      rintro ⟨p, hp, fault, hfault⟩
      obtain ⟨fragment, hok⟩ := heach p hp
      simp [hfault] at hok
    cases fragments with
    | nil =>
        rw [on_run_of_none hread] at hon
        obtain ⟨rfl, -⟩ := Prod.mk.inj hon
        exact ⟨fun hsome => absurd hsome hnone, fun _ hunbuilt => hunbuilt.elim, nofun⟩
    | cons primary imported =>
        rw [on_run_of_read hread] at hon
        refine ⟨fun hsome => absurd hsome hnone, fun _ hunbuilt => ?_, fun ended hended hfailed => ?_⟩
        · exact untraced_of_unbuilt hsound hsession hwhole hconfined hon hunbuilt
        · rcases on_runFragments_cases hon with ⟨fault, rfl⟩ | ⟨_, _, _, -, -, hrun, -⟩
          · simp at hended
          · cases ended with
            | built => exact absurd rfl hfailed
            | failed ds =>
                rw [hended] at hrun
                obtain ⟨_, _, _, hconclude⟩ := conclude_of_runIn hrun
                exact ⟨ds, rfl, isFailure_of_conclude hconclude⟩
  · rw [on_run_of_unread hread] at hon
    obtain ⟨rfl, rfl⟩ := Prod.mk.inj hon
    refine ⟨fun _ => ⟨rfl, p, hp, fault, hfault, rfl⟩, fun hall => ?_, nofun⟩
    obtain ⟨fragment, hok⟩ := hall p hp
    simp [hfault] at hok

/-- A back end that breaks down, on a host where an earlier build of the session has left an output. -/
theorem leaves_no_trace_breakdown :
    let h : Host := ⟨⟨[(["a.csx".toList], .file (Text.encode "x") false),
      (["c".toList], .directory), (["c".toList, ".build".toList], .directory),
      (["c".toList, ".build".toList, "run".toList], .directory),
      (["c".toList, ".build".toList, "run".toList, "a.dll".toList], .file [] false)]⟩, [], []⟩
    let backEnd : BackEnd := fun _ => throw (.other "lost")
    let build := run backEnd { cacheRoot := "/c" } { output := "/a.dll" } ⟨"run", ⟨"t", "u"⟩⟩ ["/a.csx"]
    ∃ place, Untraced "/c" "run" h (build.on h).2 place := by
  intro h backEnd build
  have hsound : h.Sound := ⟨rooted_of_nodes (by decide +kernel), rfl⟩
  have hconfined : backEnd.Confined := fun _ _ _ _ _ _ => rfl
  have hresult : (build.on h).1 = .error (.tool (.invocation (.backEnd "lost"))) := by
    decide +kernel
  have hsources : ∀ p ∈ ([("/a.csx" : Path)]), ∃ fragment, ((Sources.read p).on h).1 = .ok fragment := by
    rw [List.forall_mem_singleton]
    exact ⟨⟨"/a.csx", "x"⟩, by decide +kernel⟩
  have htrace := leaves_no_trace hsound (namesEntry_of_length (by decide)) (by decide) hconfined
    (Attempt.on_eq hresult)
  exact htrace.2.1 hsources trivial

end Runs

end Build

end ScriptWeave
