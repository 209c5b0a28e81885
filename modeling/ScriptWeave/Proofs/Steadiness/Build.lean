import ScriptWeave.Proofs.Faults
import ScriptWeave.Proofs.Leftovers
import ScriptWeave.Proofs.Steadiness.Publication
import ScriptWeave.Proofs.Steadiness.Workspace

namespace ScriptWeave

open FileTree

variable {own kept foreign : Place → Prop} {h h' : Host}

/-! ### Sources -/

namespace Sources

open Attempt

variable {p : Path} {fragment : Fragment} {sources : List Path} {fragments : List Fragment}

def looks (h : Host) (p : Path) : List Place :=
  (h.tree.look h.directory p).2 ++
    ((h.tree.resolveEnd? h.directory p).elim [] fun r => h.tree.wayTo true [] r)

theorem mem_looks_of_resolveEnd? {r : Path} {q : Place}
    (hend : h.tree.resolveEnd? h.directory p = some r) (hq : q ∈ h.tree.wayTo true [] r) :
    q ∈ looks h p := by
  rw [looks, hend]
  exact List.mem_append_right _ hq

theorem steady_resolve (hlook : ∀ q ∈ (h.tree.look h.directory p).2, ¬ foreign q)
    (hend : ∀ r, h.tree.resolveEnd? h.directory p = some r →
      ∀ q ∈ h.tree.wayTo true [] r, Firm kept foreign h.tree q) :
    (resolve p).Steady own kept foreign h := by
  have hperform : ∀ h : Host, (Action.resolve p).perform h = (h.tree.resolve h.directory p, h) :=
    fun _ => rfl
  apply Procedure.steady_ask
  intro h' hdirectory hdrift
  have hsame : h'.tree.resolve h'.directory p = h.tree.resolve h.directory p := by
    rw [hdirectory]
    exact resolve_agree (fun q hq => hdrift.link_iff (hlook q hq))
      fun r hr => hdrift.agreeOn (hend r hr)
  rw [hperform, hperform, hsame]
  exact ⟨rfl, .refl _ _ _, hdrift⟩

theorem steady_read (hsound : h.Sound) (hread : ((read p).on h).1 = .ok fragment)
    (hfree : ∀ q ∈ looks h p, ¬ foreign q) : (read p).Steady own kept foreign h := by
  obtain ⟨r, between, hresolve, hrest⟩ := on_bind_eq_ok_iff.mp (on_eq hread)
  rw [on_rephrase_eq_ok_iff] at hresolve
  obtain ⟨hlinks, rfl⟩ := Prod.mk.inj hresolve
  obtain ⟨content, _, hcontent, -⟩ := on_bind_eq_ok_iff.mp hrest
  rw [on_rephrase_eq_ok_iff, on_read_eq_ok_iff] at hcontent
  obtain ⟨hend, habsolute⟩ := resolveEnd?_of_resolve hlinks
  have hstart : h.tree.wayTo true h.directory r = h.tree.wayTo true [] r := by
    rw [wayTo, wayTo, startOf, startOf, habsolute]
    rfl
  have hpresent := present_of_readFile hsound.rooted hsound.standing hcontent.1
  have hfirm : ∀ q ∈ h.tree.wayTo true h.directory r, Firm kept foreign h.tree q := by
    exact fun q hq => ⟨hfree q (mem_looks_of_resolveEnd? hend (hstart ▸ hq)), .inr (hpresent q hq)⟩
  have hresolved : (resolve p).Steady own kept foreign h := by
    apply steady_resolve fun q hq => hfree q (List.mem_append_left _ hq)
    intro r' hr'
    obtain rfl : r = r' := Option.some.inj (hend.symm.trans hr')
    rwa [← hstart]
  refine Steady.bind (Steady.rephrase hresolved _) fun r' hr' => ?_
  rw [on_rephrase, mapError_eq_ok_iff] at hr'
  obtain rfl : r = r' := Except.ok.inj (hlinks.symm.trans hr')
  exact Steady.bind (Steady.rephrase (Attempt.steady_read hfirm) _) fun _ _ => steady_ofOutcome _

theorem steady_readAll (hsound : h.Sound) (hread : ((readAll sources).on h).1 = .ok fragments)
    (hfree : ∀ p ∈ sources, ∀ q ∈ looks h p, ¬ foreign q) :
    (readAll sources).Steady own kept foreign h := by
  induction sources generalizing fragments with
  | nil => exact steady_pure _
  | cons p sources ih =>
      obtain ⟨fragment, between, hfirst, hrest⟩ := on_bind_eq_ok_iff.mp (on_eq hread)
      obtain ⟨more, _, hmore, -⟩ := on_bind_eq_ok_iff.mp hrest
      obtain ⟨hread, rfl⟩ := Prod.mk.inj ((on_read_eq p h).symm.trans hfirst)
      obtain ⟨hmine, hothers⟩ := List.forall_mem_cons.mp hfree
      refine Steady.bind (steady_read hsound hread hmine) fun _ _ => ?_
      rw [on_read_eq p h]
      exact Steady.bind (ih (congrArg Prod.fst hmore) hothers) fun _ _ => steady_pure _

end Sources

/-! ### Back ends -/

/-- The action looks at none but these places, and changes none but those. -/
def Action.Confined (looks writes : Place → Prop) (action : Action) (h : Host) : Prop :=
  ∀ h', h'.directory = h.directory → AgreeOn looks h.tree h'.tree →
    (action.perform h').1 = (action.perform h).1 ∧
    (∀ q, writes q → (action.perform h').2.tree.get? q = (action.perform h).2.tree.get? q) ∧
    ∀ q, ¬ writes q → (action.perform h').2.tree.get? q = h'.tree.get? q

/-- So does every action of the procedure when it runs alone. -/
def Procedure.Confined {α : Type} (looks writes : Place → Prop) : Procedure α → Host → Prop
  | .done _, _ => True
  | .step action next, h => action.Confined looks writes h ∧
      Confined looks writes (next (action.perform h).1) (action.perform h).2

theorem Procedure.Confined.steady {α : Type} {looks writes : Place → Prop} {p : Procedure α}
    (hp : p.Confined looks writes h) (hwrites : ∀ q, writes q → own q ∧ kept q ∧ ¬ foreign q)
    (hlooks : ∀ q, looks q → Firm kept foreign h.tree q) : p.Steady own kept foreign h := by
  induction p generalizing h with
  | done a => exact Procedure.steady_done a
  | step action next ih =>
      obtain ⟨hfirst, hrest⟩ := hp
      have hask : (Procedure.ask action).Steady own kept foreign h := by
        apply Procedure.steady_ask
        intro h' hdirectory hdrift
        obtain ⟨hreply, hinside, houtside⟩ := hfirst h' hdirectory (hdrift.agreeOn hlooks)
        obtain ⟨-, -, houtside'⟩ := hfirst h rfl fun _ _ => rfl
        refine ⟨hreply, fun q => ?_, fun q => ?_⟩
        · by_cases hq : writes q
          · exact .inl (hwrites q hq).1
          · exact .inr (.inl (houtside q hq))
        · by_cases hq : writes q
          · exact .inr (.inl (hinside q hq))
          · rw [houtside q hq, houtside' q hq]
            exact hdrift q
      apply Procedure.Steady.bind hask
      apply ih _ hrest
      intro q hq
      obtain ⟨hfree, hfirm⟩ := hlooks q hq
      refine ⟨hfree, ?_⟩
      by_cases hwrite : writes q
      · exact .inl (hwrites q hwrite).2.1
      · obtain ⟨-, -, houtside⟩ := hfirst h rfl fun _ _ => rfl
        refine hfirm.imp_right fun hthere => ?_
        show ((action.perform h).2.tree.get? q).isSome
        rwa [houtside q hwrite]

theorem Procedure.Confined.same {α : Type} {looks writes : Place → Prop} {p : Procedure α}
    (hp : p.Confined looks writes h) {q : Place} (hq : ¬ writes q) :
    (p.run h).2.tree.get? q = h.tree.get? q := by
  induction p generalizing h with
  | done a => rfl
  | step action next ih =>
      obtain ⟨hfirst, hrest⟩ := hp
      obtain ⟨-, -, houtside⟩ := hfirst h rfl fun _ _ => rfl
      exact (ih _ hrest).trans (houtside q hq)

theorem Procedure.Confined.bind {α β : Type} {looks writes : Place → Prop} {p : Procedure α}
    {f : α → Procedure β} (hp : p.Confined looks writes h)
    (hf : (f (p.run h).1).Confined looks writes (p.run h).2) : (p.bind f).Confined looks writes h := by
  induction p generalizing h with
  | done a => exact hf
  | step action next ih => exact ⟨hp.1, ih _ hp.2 hf⟩

structure EmitRequest.Ready (request : EmitRequest) (h : Host) (place : Place) : Prop where
  sound : h.Sound
  found : h.tree.find true h.directory request.path.parent = .ok (place, .directory)
  entry : NamesEntry request.path.name
  document : h.tree.get? (place ++ [request.path.name]) =
    some (.file (Text.encode request.text) false)
  only : ∀ q, place <+: q → q ≠ place → q ≠ place ++ [request.path.name] → h.tree.get? q = none

/-- With a directory to itself the back end looks at what is in it, at the way to it, and elsewhere at
nothing but these places. It changes what is in the directory only, and puts no links into it. -/
def BackEnd.Secluded (backEnd : BackEnd) (shared : Place → Prop) (before : Host) : Prop :=
  ∀ request h place, request.Ready h place → h.directory = before.directory →
    AgreeOn shared before.tree h.tree →
    (backEnd request).run.Confined
      (fun q => place <+: q ∨ q ∈ h.tree.wayTo true h.directory request.path.parent ∨ shared q)
      (fun q => place <+: q ∧ q ≠ place) h ∧
    ∀ name target, ((backEnd request).on h).2.tree.get? (place ++ [name]) ≠ some (.link target)

theorem EmitRequest.Ready.confined_read {request : EmitRequest} {place : Place}
    {shared : Place → Prop} (hready : request.Ready h place) :
    (Attempt.read request.path).run.Confined
      (fun q => place <+: q ∨ q ∈ h.tree.wayTo true h.directory request.path.parent ∨ shared q)
      (fun q => place <+: q ∧ q ≠ place) h := by
  have hperform : ∀ h : Host, (Action.read request.path).perform h =
      ((h.tree.readFile h.directory request.path).mapError (⟨·, request.path⟩), h) := fun _ => rfl
  refine ⟨fun h' hdirectory hagree => ?_, trivial⟩
  have hsame : h'.tree.readFile h'.directory request.path =
      h.tree.readFile h.directory request.path := by
    rw [hdirectory]
    refine readFile_agree fun q hq => hagree q ?_
    rcases wayTo_entry hready.found hready.entry (by simp [hready.document]) q hq with hway | rfl
    · exact .inr (.inl hway)
    · exact .inl (List.prefix_append _ _)
  rw [hperform, hperform, hsame]
  exact ⟨rfl, fun q hq => hagree q (.inl hq.1), fun _ _ => rfl⟩

namespace Workspace

variable {w : Workspace} {place : Place} {own' foreign' : Place → Prop}

theorem Seated.mono (hseated : w.Seated own kept foreign h place)
    (hinside : ∀ q, place <+: q → q ≠ place → own' q) (hforeign : ∀ q, foreign' q → foreign q) :
    w.Seated own' kept foreign' h place where
  sound := hseated.sound
  found := hseated.found
  way := fun q hq => ⟨fun hno => (hseated.way q hq).1 (hforeign q hno), (hseated.way q hq).2⟩
  above := fun hno => hseated.above (hforeign _ hno)
  inside := fun q hq hne => by
    obtain ⟨-, hkept, hfree⟩ := hseated.inside q hq hne
    exact ⟨hinside q hq hne, hkept, fun hno => hfree (hforeign q hno)⟩
  linkless := hseated.linkless

theorem Seated.of_or {puts : Place → Prop}
    (hseated : w.Seated own kept (fun q => foreign q ∨ puts q) h place) :
    w.Seated own kept foreign h place :=
  hseated.mono (fun q hq hne => (hseated.inside q hq hne).1) fun _ => .inl

theorem Seated.within_of_same (hseated : w.Seated own kept foreign h place) (htree : h'.tree = h.tree)
    (hdirectory : h'.directory = h.directory) : Within place h h' :=
  ⟨(hseated.of_same htree hdirectory).sound, hdirectory, fun q _ => by rw [htree],
    (hseated.of_same htree hdirectory).linkless⟩

theorem Seated.steady_backEnd {backEnd : BackEnd} {request : EmitRequest} {shared : Place → Prop}
    {before : Host} (hseated : w.Seated own kept foreign h place)
    (hbackEnd : backEnd.Secluded shared before) (hdirectory : h.directory = before.directory)
    (hagree : AgreeOn shared before.tree h.tree)
    (hshared : ∀ q, shared q → Firm kept foreign h.tree q) (hpath : request.path.parent = w.path)
    (hready : request.Ready h place) (houtside : ¬ place <+: h.directory) :
    (backEnd request).Steady own kept foreign h ∧ Within place h ((backEnd request).on h).2 := by
  obtain ⟨hconfined, hlinkless⟩ := hbackEnd request h place hready hdirectory hagree
  rw [hpath] at hconfined
  have hpresent := present_of_find hseated.sound.rooted hseated.sound.standing hseated.found
  have hplace := mem_wayTo (find_eq_ok_iff.mp hseated.found).1
  have hlooks : ∀ q, (place <+: q ∨ q ∈ h.tree.wayTo true h.directory w.path ∨ shared q) →
      Firm kept foreign h.tree q := by
    rintro q (hbelow | hway | hq)
    · by_cases hsame : q = place
      · exact hsame ▸ ⟨(hseated.way place hplace).1, .inr (hpresent place hplace)⟩
      · obtain ⟨-, hkept, hfree⟩ := hseated.inside q hbelow hsame
        exact ⟨hfree, .inl hkept⟩
    · exact ⟨(hseated.way q hway).1, .inr (hpresent q hway)⟩
    · exact hshared q hq
  have hsteady : (backEnd request).run.Steady (fun q => place <+: q ∧ q ≠ place) kept foreign h :=
    hconfined.steady (fun q hq => ⟨hq, (hseated.inside q hq.1 hq.2).2⟩) hlooks
  obtain ⟨-, hsound⟩ := hsteady.alone hseated.sound fun hbelow => houtside hbelow.1
  refine ⟨hsteady.mono fun q hq => (hseated.inside q hq.1 hq.2).1, hsound,
    Attempt.on_directory _ h, fun q hq => ?_, hlinkless⟩
  exact hconfined.same fun hbelow => hbelow.2 (hq hbelow.1)

end Workspace

/-! ### Outputs -/

namespace Publication

variable {puts : Place → Prop} {place : Place} {names : CopyNames} {output binary : Path}
variable {symbols : Option Path}

/-- The directory of the output is there or can be made, outside of the workspace, and what is put into
it is one's own. -/
structure Destined (puts kept foreign : Place → Prop) (place : Place) (names : CopyNames)
    (output : Path) (h : Host) : Prop where
  entry : NamesEntry output.name
  way : ∀ q ∈ h.tree.wayTo true h.directory output.parent,
    ¬ foreign q ∧ ¬ puts q ∧ (place <+: q → q = place)
  made : ∃ z, (Directories.ensure output.parent).on h = (.ok (), z)
  files : ∀ p ∈ files names output, puts (h.tree.goal h.directory output.parent ++ [p.name])
  puts : ∀ q, puts q → kept q ∧ ¬ foreign q ∧ ¬ place <+: q
  vacant : ∀ p ∈ [temporaryPath output names.binary,
      temporaryPath (output.withExtension ".pdb") names.symbols],
    h.tree.get? (h.tree.goal h.directory output.parent ++ [p.name]) = none

theorem Destined.later (hdestined : Destined puts kept foreign place names output h)
    (hsound : h.Sound) (hwithin : Workspace.Within place h h') :
    Destined puts kept foreign place names output h' := by
  have hdrift : Drift (fun _ => False) (fun q => place <+: q ∧ q ≠ place) h.tree h'.tree := by
    intro q
    by_cases hbelow : place <+: q ∧ q ≠ place
    · exact .inl hbelow
    · exact .inr (.inl (hwithin.same q fun hq => by_contra fun hne => hbelow ⟨hq, hne⟩))
  have hfree : ∀ q ∈ h.tree.wayTo true h.directory output.parent, ¬ (place <+: q ∧ q ≠ place) :=
    fun q hq hbelow => hbelow.2 ((hdestined.way q hq).2.2 hbelow.1)
  have hway := hdrift.wayTo hfree
  have hgoal := goal_congr hway
  obtain ⟨z, hmade⟩ := hdestined.made
  have htemporary : ∀ p ∈ [temporaryPath output names.binary,
      temporaryPath (output.withExtension ".pdb") names.symbols], p ∈ Publication.files names output := by
    simp [Publication.files]
  refine ⟨hdestined.entry, ?_, ?_, ?_, hdestined.puts, fun p hp => ?_⟩
  · rw [hwithin.directory, hway]
    exact hdestined.way
  · exact Directories.on_ensure_of_drift hsound hfree hmade hwithin.sound hwithin.directory hdrift
  · rw [hwithin.directory, hgoal]
    exact hdestined.files
  · have hput := hdestined.files p (htemporary p hp)
    rw [hwithin.directory, hgoal, hwithin.same _ fun hbelow =>
      absurd hbelow (hdestined.puts _ hput).2.2]
    exact hdestined.vacant p hp

theorem Destined.steady_publish (chunking : Chunking)
    (hdestined : Destined puts kept foreign place names output h) (hsound : h.Sound)
    (hbinary : Spared puts kept foreign h binary)
    (hsymbols : ∀ source, symbols = some source → Spared puts kept foreign h source) :
    (publish chunking names binary output symbols).Steady puts kept foreign h := by
  obtain ⟨z, hmade⟩ := hdestined.made
  have hway : ∀ q ∈ h.tree.wayTo true h.directory output.parent, ¬ foreign q ∧ ¬ puts q :=
    fun q hq => ⟨(hdestined.way q hq).1, (hdestined.way q hq).2.1⟩
  have hsite : Site puts kept foreign z names output (h.tree.goal h.directory output.parent) := by
    refine site_of_ensure hway hmade hsound hdestined.entry (fun p hp => ?_) hdestined.vacant
    have hput := hdestined.files p hp
    exact ⟨hput, (hdestined.puts _ hput).1, (hdestined.puts _ hput).2.1⟩
  exact Publication.steady_publish hway hmade hsound hsite hbinary hsymbols

end Publication

/-! ### Builds -/

namespace Build

open Attempt

variable {w : Workspace} {session place : Place} {backEnd : BackEnd} {settings : Settings}
variable {options : BuildOptions} {names : CopyNames} {primary : Fragment} {imported : List Fragment}

theorem ready_of_write {made written : Host} {name : Text} {request : EmitRequest}
    (hopened : w.Opened made h session place) (hname : '/' ∉ name)
    (hon : (Attempt.write (w.path.join (Path.ofText name)) (Text.encode request.text)).on h =
      (.ok (), written)) (hpath : request.path = w.path.join (Path.ofText name))
    (hseated : w.Seated own kept foreign h' place) (htree : h'.tree = written.tree) :
    request.Ready h' place ∧ request.path.parent = w.path := by
  obtain ⟨hparent, hlast, hentry, tree, rfl, hupdates⟩ := document_of_write hopened hname hon
  rw [Host.withTree_tree] at htree
  rw [← hpath] at hparent hlast
  refine ⟨⟨hseated.sound, hparent ▸ hseated.found, hlast.symm ▸ hentry, ?_, fun q hq hne hnot => ?_⟩,
    hparent⟩
  · rw [htree, hlast, hupdates.self]
  · rw [hlast] at hnot
    rw [htree, hupdates.other hnot, hopened.empty q hq hne]

theorem steady_logEach {α : Type} {logOne : α → Procedure Unit}
    (hone : ∀ a h, (logOne a).Steady own kept foreign h) (as : List α) :
    (logEach logOne as).Steady own kept foreign h := by
  induction as generalizing h with
  | nil => exact Procedure.steady_done _
  | cons a as ih => exact (hone a h).bind ih

theorem steady_merge (hoist : Bool) (primary : Fragment) (imported : List Fragment) :
    (merge hoist primary imported).Steady own kept foreign h := by
  refine Steady.bind (steady_ofOutcome _) fun imports _ => ?_
  refine Steady.bind (steady_lift (steady_logEach (fun _ _ => Procedure.steady_log _ _ _ _) _))
    fun _ _ => ?_
  refine Steady.bind (steady_ofOutcome _) fun document _ => ?_
  exact Steady.bind (steady_lift (Procedure.steady_log _ _ _ _)) fun _ _ => steady_pure _

theorem steady_resolveReferences (settings : Settings) (references : List Path) :
    (resolveReferences settings references).Steady own kept foreign h := by
  apply (steady_logEach (fun _ _ => Procedure.steady_log _ _ _ _) _).bind
  exact (Procedure.steady_log _ _ _ _).bind (Procedure.steady_done _)

theorem steady_emit {request : EmitRequest} (hbackEnd : (backEnd request).Steady own kept foreign h) :
    (emit backEnd request).Steady own kept foreign h := by
  have hclock : ∀ h, (Procedure.ask .clock).Steady own kept foreign h := fun h =>
    Procedure.steady_ask fun _ _ hdrift => ⟨rfl, .refl _ _ _, hdrift⟩
  refine Steady.bind (steady_lift (hclock h)) fun _ _ => ?_
  refine Steady.bind (Steady.outcome hbackEnd) fun result _ => ?_
  refine Steady.bind (steady_lift (hclock _)) fun _ _ => ?_
  exact Steady.bind (steady_lift (Procedure.steady_log _ _ _ _)) fun _ _ => steady_ofOutcome _

section Seated

variable {puts : Place → Prop} (hplain : w.Plain)
  (hseated : w.Seated own kept (fun q => foreign q ∨ puts q) h place)
  (hputs : ∀ q, puts q → own q)
  (hdestined : Publication.Destined puts kept foreign place names options.output h)

include hplain hseated hputs hdestined

theorem steady_conclude (origin : Origin) (emitted : EmitResult) :
    (conclude options names w origin emitted).Steady own kept foreign h := by
  rw [conclude]
  split
  · split
    · exact steady_pure _
    · rename_i binary _ _ _
      obtain ⟨hwrite, hwithin⟩ := Workspace.steady_write hplain hseated.of_or binary
        (if options.debug then emitted.symbols else none)
      refine Steady.bind (Steady.rephrase hwrite _) fun paths hon => ?_
      rw [on_rephrase, mapError_eq_ok_iff] at hon
      rw [on_rephrase]
      obtain ⟨hbinary, hsymbols⟩ := Workspace.paths_of_write (on_eq hon)
      generalize ((w.write binary _).on h).2 = after at hwithin ⊢
      have hlater := hseated.later hwithin
      have hspared : ∀ p : Path, p.parent = w.path → NamesEntry p.name →
          Publication.Spared puts kept foreign after p := by
        intro p hparent hname q hq
        obtain ⟨hfree, hfirm⟩ := (hlater.entry hparent hname).firm_way
          (fun _ => hlater.linkless p.name) q hq
        exact ⟨⟨fun hno => hfree (.inl hno), hfirm⟩, fun hput => hfree (.inr hput)⟩
      have hpublish := (hdestined.later hseated.sound hwithin).steady_publish .whole hwithin.sound
        (hbinary ▸ hspared _ (Workspace.binaryPath_parent hplain)
          (Workspace.namesEntry_binaryPath hplain))
        fun source hsource => hsymbols source hsource ▸ hspared _
          (Workspace.symbolsPath_parent hplain) (Publication.namesEntry_symbols w.binaryPath)
      exact Steady.bind (Steady.rephrase (Procedure.Steady.mono hpublish hputs) _)
        fun _ _ => steady_pure _
  · exact steady_pure _

theorem steady_emit_conclude {shared : Place → Prop} {before : Host} {request : EmitRequest}
    (origin : Origin) (hbackEnd : backEnd.Secluded shared before)
    (hdirectory : h.directory = before.directory) (hagree : AgreeOn shared before.tree h.tree)
    (hshared : ∀ q, shared q → Firm kept foreign h.tree q) (houtside : ¬ place <+: h.directory)
    (hready : request.Ready h place) (hparent : request.path.parent = w.path) :
    (emit backEnd request >>= fun emitted => conclude options names w origin emitted).Steady
      own kept foreign h := by
  obtain ⟨hemit, hemitted⟩ := hseated.of_or.steady_backEnd hbackEnd hdirectory hagree hshared hparent hready
    houtside
  refine Steady.bind (steady_emit hemit) fun emitted _ => ?_
  obtain ⟨log, hlog⟩ := on_emit backEnd request h
  rw [hlog]
  have hlogged : Workspace.Within place _ { ((backEnd request).on h).2 with log } :=
    (hseated.of_or.later hemitted).within_of_same rfl rfl
  have hended := hemitted.trans hlogged
  exact steady_conclude hplain (hseated.later hended) hputs
    (hdestined.later hseated.sound hended) origin emitted

theorem steady_runIn {shared : Place → Prop} {before made : Host}
    (hbackEnd : backEnd.Secluded shared before) (hdirectory : h.directory = before.directory)
    (hagree : AgreeOn shared before.tree h.tree)
    (hshared : ∀ q, shared q → Firm kept foreign h.tree q ∧ (place <+: q → q = place))
    (houtside : ¬ place <+: h.directory) (hopened : w.Opened made h session place)
    (hname : '/' ∉ primary.name) :
    (runIn backEnd settings options names w primary imported).Steady own kept foreign h := by
  have hmine := hseated.of_or
  refine Steady.bind (steady_merge _ _ _) fun document _ => ?_
  have hmerged := hmine.within_of_same (keeps_merge settings.hoist primary imported h)
    (on_directory _ h)
  have hopened' := hopened.of_same (keeps_merge settings.hoist primary imported h) (on_directory _ h)
  generalize ((merge settings.hoist primary imported).on h).2 = merged at hmerged hopened' ⊢
  obtain ⟨hdocument, hwritten⟩ := Workspace.steady_document (hmine.later hmerged) hname
    (Text.encode document.text)
  refine Steady.bind (Steady.rephrase hdocument _) fun _ hon => ?_
  rw [on_rephrase, mapError_eq_ok_iff] at hon
  rw [on_rephrase]
  have hon' := on_eq hon
  generalize ((Attempt.write _ (Text.encode document.text)).on merged).2 = written at hwritten hon' ⊢
  refine Steady.bind (steady_lift (steady_resolveReferences _ _)) fun references _ => ?_
  rw [on_lift]
  have htree := resolveReferences_tree settings options.references written
  have hresolved := (hmine.later (hmerged.trans hwritten)).within_of_same htree
    (run_directory (resolveReferences settings options.references) written)
  generalize ((resolveReferences settings options.references).run written).2 = resolved
    at hresolved htree ⊢
  have hwithin := (hmerged.trans hwritten).trans hresolved
  have hsame : ∀ q, shared q → resolved.tree.get? q = h.tree.get? q :=
    fun q hq => hwithin.same q (hshared q hq).2
  set request := EmitRequest.mk document.text _ w.project references options.debug _
  obtain ⟨hready, hparent⟩ : request.Ready resolved place ∧ request.path.parent = w.path :=
    ready_of_write hopened' hname hon' rfl (hmine.later hwithin) htree
  apply steady_emit_conclude hplain (hseated.later hwithin) hputs
    (hdestined.later hseated.sound hwithin) _ hbackEnd (hwithin.directory.trans hdirectory) _ _ _
    hready hparent
  · exact fun q hq => (hsame q hq).trans (hagree q hq)
  · intro q hq
    rw [Firm, hsame q hq]
    exact (hshared q hq).1
  · exact hwithin.directory ▸ houtside

end Seated

end Build

end ScriptWeave
