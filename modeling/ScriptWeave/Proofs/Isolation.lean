import ScriptWeave.Proofs.Steadiness.Build

/-!
Builds at the same time. Two builds under one cache root that have different sessions and outputs, and
of which neither changes what the other one reads or passes, do not notice each other: whatever the
order of their steps, both end as they do alone.
-/

namespace ScriptWeave

open FileTree

/-- One build, with what it is given and the names that it draws. -/
structure Job where
  backEnd : BackEnd
  settings : Settings
  options : BuildOptions
  names : BuildNames
  sources : List Path

namespace Job

def run (j : Job) : Attempt BuildFault BuildResult :=
  Build.run j.backEnd j.settings j.options j.names j.sources

variable (j : Job) (h : Host)

def builds : Place := h.tree.goal h.directory (j.settings.cacheRoot.join ".build")

def session : Place := j.builds h ++ [j.names.session]

def workspace (primary : Fragment) : Workspace :=
  ⟨j.settings.cacheRoot, j.names.session, Build.projectOf primary⟩

/-- Where the output and its symbols go, and the temporary files that they are copied to. -/
def puts : List Place :=
  (Publication.files j.names.copies j.options.output).map fun p =>
    h.tree.goal h.directory j.options.output.parent ++ [p.name]

/-- The places that are changed, but for directories that are made on the way to them. -/
def Owns (q : Place) : Prop := j.session h <+: q ∨ q ∈ j.puts h

instance (q : Place) : Decidable (j.Owns h q) :=
  inferInstanceAs (Decidable (_ <+: q ∨ q ∈ j.puts h))

def ways : List Place :=
  h.directory :: (h.tree.wayTo true h.directory (j.settings.cacheRoot.join ".build") ++
    h.tree.wayTo true h.directory j.options.output.parent)

def runIn (primary : Fragment) (imported : List Fragment) : Attempt BuildFault BuildResult :=
  Build.runIn j.backEnd j.settings j.options j.names.copies (j.workspace primary) primary imported

/-- Comes so far that it has a workspace. -/
def Enters : Prop := Build.Enters j.settings j.names j.sources h

/-- Comes so far that it has a workspace, and then finds or can make the directory of its output. -/
def Prepares : Prop :=
  ∃ primary imported made entered prepared,
    (Sources.readAll j.sources).on h = (.ok (primary :: imported), h) ∧
    (Build.ensureCacheRoot j.settings.cacheRoot).on h = (.ok (), made) ∧
    (j.workspace primary).enter.on made = (.ok (), entered) ∧
    (Directories.ensure j.options.output.parent).on entered = (.ok (), prepared)

/-- A build whose session is one name, whose output is a file outside of the directory of all sessions,
and which does not change the ways to them. -/
structure Orderly : Prop where
  sound : h.Sound
  session : NamesEntry j.names.session
  whole : '/' ∉ j.names.session
  output : NamesEntry j.options.output.name
  outside : ∀ q ∈ j.puts h, ¬ j.builds h <+: q
  ways : ∀ q ∈ j.ways h, ¬ j.Owns h q
  unused : ∀ p ∈ [Publication.temporaryPath j.options.output j.names.copies.binary,
      Publication.temporaryPath (j.options.output.withExtension ".pdb") j.names.copies.symbols],
    h.tree.get? (h.tree.goal h.directory j.options.output.parent ++ [p.name]) = none

/-- A build shares the directory of all sessions with another one, which changes nothing that it
reads, passes or changes. Its back end keeps to its workspace. -/
structure Apart (j : Job) (h : Host) (k : Job) (h' : Host) : Prop where
  builds : j.builds h = k.builds h'
  sessions : j.names.session ≠ k.names.session
  outputs : ∀ q ∈ j.puts h, q ∉ k.puts h'
  ways : ∀ q ∈ j.ways h, ¬ k.Owns h' q
  sources : ∀ p ∈ j.sources, ∀ q ∈ Sources.looks h p, ¬ k.Owns h' q
  backEnd : j.backEnd.Secluded
    (fun q => (h.tree.get? q).isSome ∧ ¬ j.Owns h q ∧ ¬ k.Owns h' q) h

variable {j h} {k : Job} {h' : Host}

theorem Apart.disjoint (hj : j.Orderly h) (hk : k.Orderly h') (hapart : j.Apart h k h') {q : Place}
    (hq : j.Owns h q) : ¬ k.Owns h' q := by
  have hbuilds : ∀ (i : Job) (h : Host), i.builds h <+: i.session h :=
    fun i h => List.prefix_append _ _
  rintro (hother | hother)
  · rcases hq with hown | hown
    · have hlength : (j.session h).length = (k.session h').length := by
        rw [session, session, hapart.builds, List.length_append, List.length_append]
        rfl
      have hsame := (List.prefix_of_prefix_length_le hown hother hlength.le).eq_of_length hlength
      rw [session, session, hapart.builds] at hsame
      exact hapart.sessions (List.cons.inj (List.append_cancel_left hsame)).1
    · exact hj.outside q hown (hapart.builds ▸ (hbuilds k h').trans hother)
  · rcases hq with hown | hown
    · exact hk.outside q hother (hapart.builds ▸ (hbuilds j h).trans hown)
    · exact hapart.outputs q hown hother

/-! ### Beside others -/

/-- A build has entered its workspace beside others. Nothing has changed but its session directory,
and neither they nor the output meet it. -/
structure Begun (foreign : Place → Prop) (j : Job) (h : Host) (primary : Fragment)
    (made entered : Host) (place : Place) : Prop where
  directory : entered.directory = h.directory
  opened : (j.workspace primary).Opened made entered (j.session h) place
  seated : (j.workspace primary).Seated (j.session h <+: ·) (j.Owns h)
    (fun q => foreign q ∨ q ∈ j.puts h) entered place
  drift : Drift (fun q => foreign q ∨ q ∈ j.puts h) (j.session h <+: ·) h.tree entered.tree

section Steady

variable {foreign shared : Place → Prop} {primary : Fragment} {imported : List Fragment}
variable {made entered prepared : Host} {place : Place}
variable (hj : j.Orderly h) (hfree : ∀ q, j.Owns h q → ¬ foreign q)
  (hways : ∀ q ∈ j.ways h, ¬ foreign q)

theorem Orderly.plain (hj : j.Orderly h) (primary : Fragment) : (j.workspace primary).Plain :=
  ⟨hj.session, hj.whole, Path.no_slash_stem primary.path⟩

theorem Orderly.not_session (hj : j.Orderly h) {q : Place} (hq : q ∈ j.puts h) :
    ¬ j.session h <+: q :=
  fun hsession => hj.outside q hq ((List.prefix_append _ _).trans hsession)

include hj hways

theorem Orderly.wayTo_builds :
    ∀ q ∈ h.tree.wayTo true h.directory (j.settings.cacheRoot.join ".build"),
      ¬ foreign q ∧ ¬ j.Owns h q := by
  intro q hq
  have hmem : q ∈ j.ways h := List.mem_cons_of_mem _ (List.mem_append_left _ hq)
  exact ⟨hways q hmem, hj.ways q hmem⟩

theorem Orderly.wayTo_output :
    ∀ q ∈ h.tree.wayTo true h.directory j.options.output.parent, ¬ foreign q ∧ ¬ j.Owns h q := by
  intro q hq
  have hmem : q ∈ j.ways h := List.mem_cons_of_mem _ (List.mem_append_right _ hq)
  exact ⟨hways q hmem, hj.ways q hmem⟩

theorem Orderly.steady_ensureCacheRoot
    (hmade : (Build.ensureCacheRoot j.settings.cacheRoot).on h = (.ok (), made)) :
    (Build.ensureCacheRoot j.settings.cacheRoot).Steady (j.Owns h) (j.Owns h) foreign h ∧
      made.Sound ∧ made.tree.isDirectory made.directory j.settings.cacheRoot = true ∧
      h.GrowsIn (fun q => ¬ foreign q ∧ ¬ j.Owns h q) made := by
  have hcache : ∀ q ∈ h.tree.wayTo true h.directory j.settings.cacheRoot,
      ¬ foreign q ∧ ¬ j.Owns h q :=
    fun q hq => hj.wayTo_builds hways q (way_subset (by simp) hq)
  rw [Build.ensureCacheRoot, Attempt.on_rephrase_eq_ok_iff] at hmade
  have hgrows := Directories.on_ensure_growsIn h j.settings.cacheRoot
  have hsound := Directories.on_ensure_sound hj.sound j.settings.cacheRoot
  rw [hmade] at hgrows hsound
  refine ⟨?_, hsound, Directories.isDirectory_of_on_ensure hmade,
    ⟨hgrows.tree.mono hcache, hgrows.directory⟩⟩
  exact Attempt.Steady.rephrase
    (Directories.steady_ensure hj.sound (fun q hq => (hcache q hq).1) hmade) _

include hfree

theorem Orderly.begun (hmade : (Build.ensureCacheRoot j.settings.cacheRoot).on h = (.ok (), made))
    (hentered : (j.workspace primary).enter.on made = (.ok (), entered)) :
    (j.workspace primary).enter.Steady (j.Owns h) (j.Owns h) foreign made ∧
      ∃ place, Begun foreign j h primary made entered place := by
  obtain ⟨-, hsound, hthere, hgrows⟩ := hj.steady_ensureCacheRoot hways hmade
  have hbuilds := hj.wayTo_builds hways
  have houtside : ¬ j.session h <+: made.directory := by
    rw [hgrows.directory]
    exact fun hbelow => hj.ways _ List.mem_cons_self (.inl hbelow)
  have hprivate : ∀ foreign' : Place → Prop,
      (∀ q ∈ h.tree.wayTo true h.directory (j.workspace primary).builds, ¬ foreign' q) →
      (∀ q, j.session h <+: q → ¬ foreign' q) →
      (j.workspace primary).Private (j.session h <+: ·) (j.Owns h) foreign' made (j.session h) := by
    intro foreign' hway hinside
    refine ⟨?_, ?_, fun q hq => ⟨hq, .inl hq, hinside q hq⟩, houtside⟩
    · rw [hgrows.tree.wayTo, hgrows.directory]
      exact hway
    · rw [hgrows.directory, goal_congr (hgrows.tree.wayTo true _ _)]
      rfl
  obtain ⟨hsteady, -⟩ := Workspace.steady_enter (hj.plain primary) hsound
    (hprivate foreign (fun q hq => (hbuilds q hq).1) fun q hq => hfree q (.inl hq)) hthere hentered
  -- Alone nothing comes to be where the output belongs, either.
  obtain ⟨halone, place, hopened, hseated⟩ := Workspace.steady_enter (hj.plain primary) hsound
    (hprivate (fun q => foreign q ∨ q ∈ j.puts h)
      (fun q hq => not_or.mpr ⟨(hbuilds q hq).1, fun hput => (hbuilds q hq).2 (.inr hput)⟩)
      fun q hq => not_or.mpr ⟨hfree q (.inl hq), fun hput => hj.not_session hput hq⟩) hthere hentered
  refine ⟨Procedure.Steady.mono hsteady fun q => .inl, place, ?_, hopened, hseated, ?_⟩
  · exact hopened.directory.trans hgrows.directory
  · obtain ⟨hentering, -⟩ := Procedure.Steady.alone halone hsound houtside
    have hlast : ((j.workspace primary).enter.run.run made).2 = entered :=
      congrArg Prod.snd hentered
    rw [hlast] at hentering
    refine (hgrows.tree.drift fun q hq => ?_).trans hentering
    exact not_or.mpr ⟨hq.1, fun hput => hq.2 (.inr hput)⟩

variable (hbegun : Begun foreign j h primary made entered place)

include hbegun

theorem Begun.destined
    (hprepared : (Directories.ensure j.options.output.parent).on entered = (.ok (), prepared)) :
    Publication.Destined (· ∈ j.puts h) (j.Owns h) foreign place j.names.copies j.options.output
      entered := by
  have houtput := hj.wayTo_output hways
  have hway : entered.tree.wayTo true h.directory j.options.output.parent =
      h.tree.wayTo true h.directory j.options.output.parent :=
    hbegun.drift.wayTo fun q hq hbelow => (houtput q hq).2 (.inl hbelow)
  have hfile : ∀ p ∈ Publication.files j.names.copies j.options.output,
      h.tree.goal h.directory j.options.output.parent ++ [p.name] ∈ j.puts h :=
    fun p hp => List.mem_map_of_mem hp
  refine ⟨hj.output, fun q hq => ?_, ⟨prepared, hprepared⟩, ?_, fun q hq => ?_, fun p hp => ?_⟩
  · rw [hbegun.directory, hway] at hq
    obtain ⟨hno, hnot⟩ := houtput q hq
    exact ⟨hno, fun hput => hnot (.inr hput), fun hbelow =>
      absurd (.inl (hbegun.opened.inside.trans hbelow)) hnot⟩
  · rw [hbegun.directory, goal_congr hway]
    exact hfile
  · exact ⟨.inr hq, hfree q (.inr hq), fun hbelow =>
      hj.not_session hq (hbegun.opened.inside.trans hbelow)⟩
  · have htemporary : p ∈ Publication.files j.names.copies j.options.output := by
      simp only [Publication.files, List.mem_cons, List.not_mem_nil, or_false] at hp ⊢
      exact .inr (.inr hp)
    have hput := hfile p htemporary
    rw [hbegun.directory, goal_congr hway, hbegun.drift.firm ⟨hj.not_session hput, .inl (.inr hput)⟩]
    exact hj.unused p hp

theorem Begun.steady_runIn (hbackEnd : j.backEnd.Secluded shared h)
    (hshared : ∀ q, shared q → (h.tree.get? q).isSome ∧ ¬ j.Owns h q ∧ ¬ foreign q)
    (hprepared : (Directories.ensure j.options.output.parent).on entered = (.ok (), prepared)) :
    (j.runIn primary imported).Steady (fun q => (place <+: q ∧ q ≠ place) ∨ q ∈ j.puts h) (j.Owns h)
      foreign entered := by
  have hseated : (j.workspace primary).Seated (fun q => (place <+: q ∧ q ≠ place) ∨ q ∈ j.puts h)
      (j.Owns h) (fun q => foreign q ∨ q ∈ j.puts h) entered place :=
    hbegun.seated.mono (fun q hq hne => .inl ⟨hq, hne⟩) fun _ => id
  have hbelow : ∀ q, place <+: q → j.Owns h q := fun q hq => .inl (hbegun.opened.inside.trans hq)
  have hsame : AgreeOn shared h.tree entered.tree := by
    intro q hq
    obtain ⟨hthere, hnot, -⟩ := hshared q hq
    exact hbegun.drift.firm ⟨fun hsession => hnot (.inl hsession), .inr hthere⟩
  refine Build.steady_runIn (hj.plain primary) hseated (fun q => .inr)
    (Begun.destined hj hfree hways hbegun hprepared) hbackEnd hbegun.directory hsame (fun q hq => ?_) ?_
    hbegun.opened (Path.no_slash_name primary.path)
  · obtain ⟨hthere, hnot, hno⟩ := hshared q hq
    exact ⟨⟨hno, .inr (by rwa [hsame q hq])⟩, fun hq => absurd (hbelow q hq) hnot⟩
  · rw [hbegun.directory]
    exact fun hplace => hj.ways _ List.mem_cons_self (hbelow _ hplace)

omit hfree in
theorem Begun.clearable
    (hruns : (j.runIn primary imported).Steady (fun q => (place <+: q ∧ q ≠ place) ∨ q ∈ j.puts h)
      (j.Owns h) foreign entered) :
    (j.workspace primary).Clearable foreign ((j.runIn primary imported).on entered).2
      (j.session h) := by
  have hbuilds := hj.wayTo_builds hways
  have hnot : ∀ q, ((place <+: q ∧ q ≠ place) ∨ q ∈ j.puts h) → j.Owns h q := fun q hq =>
    hq.imp_left fun hbelow => hbegun.opened.inside.trans hbelow.1
  have hstart : ¬ j.Owns h entered.directory := by
    rw [hbegun.directory]
    exact hj.ways _ List.mem_cons_self
  have hway : entered.tree.wayTo true entered.directory (j.workspace primary).builds =
      h.tree.wayTo true h.directory (j.workspace primary).builds := by
    rw [hbegun.directory]
    exact hbegun.drift.wayTo fun q hq hbelow => (hbuilds q hq).2 (.inl hbelow)
  have hclear : (j.workspace primary).Clearable foreign entered (j.session h) := by
    refine ⟨hbegun.seated.sound, ?_, ?_, fun hsession => hstart (.inl hsession)⟩
    · rw [hbegun.opened.directory]
      exact hbegun.opened.ready.found
    · rw [hway]
      exact fun q hq => (hbuilds q hq).1
  obtain ⟨hdrift, hsound⟩ := Procedure.Steady.alone hruns hbegun.seated.sound
    fun hown => hstart (hnot _ hown)
  refine hclear.later (hj.plain primary) hsound (Attempt.on_directory _ _) hdrift ?_ ?_
  · rintro (⟨hbelow, hne⟩ | hput)
    · exact hne (hbelow.eq_of_length_le hbegun.opened.inside.length_le).symm
    · exact hj.not_session hput (List.prefix_refl _)
  · rw [hway]
    exact fun q hq hown => (hbuilds q hq).2 (hnot q hown)

end Steady

theorem Orderly.steady_run {foreign shared : Place → Prop} (hj : j.Orderly h)
    (hfree : ∀ q, j.Owns h q → ¬ foreign q) (hways : ∀ q ∈ j.ways h, ¬ foreign q)
    (hsources : ∀ p ∈ j.sources, ∀ q ∈ Sources.looks h p, ¬ foreign q)
    (hbackEnd : j.backEnd.Secluded shared h)
    (hshared : ∀ q, shared q → (h.tree.get? q).isSome ∧ ¬ j.Owns h q ∧ ¬ foreign q)
    (hprepares : j.Prepares h) :
    j.run.Steady (j.Owns h) (j.Owns h) foreign h ∧
      ∀ q, j.session h <+: q → (j.run.on h).2.tree.get? q = none := by
  obtain ⟨primary, imported, made, entered, prepared, hread, hmade, hentered, hprepared⟩ := hprepares
  obtain ⟨hcache, -⟩ := hj.steady_ensureCacheRoot hways hmade
  obtain ⟨henter, place, hbegun⟩ := hj.begun hfree hways hmade hentered
  have hruns : (j.runIn primary imported).Steady _ _ _ _ :=
    Begun.steady_runIn hj hfree hways hbegun hbackEnd hshared hprepared
  obtain ⟨hremove, hgone⟩ := Workspace.steady_remove (hj.plain primary)
    (Begun.clearable hj hways hbegun hruns) fun q hq => ⟨(.inl hq : j.Owns h q), hfree q (.inl hq)⟩
  have hinside : ∀ q, ((place <+: q ∧ q ≠ place) ∨ q ∈ j.puts h) → j.Owns h q := fun q hq =>
    hq.imp_left fun hbelow => hbegun.opened.inside.trans hbelow.1
  constructor
  · refine Attempt.Steady.bind (Attempt.Steady.rephrase
      (Sources.steady_readAll hj.sound (congrArg Prod.fst hread) hsources) _) fun fragments hon => ?_
    rw [Attempt.on_rephrase, Attempt.mapError_eq_ok_iff, hread] at hon
    obtain rfl : primary :: imported = fragments := Except.ok.inj hon
    rw [Attempt.on_rephrase, hread]
    refine Attempt.Steady.bind (Attempt.Steady.rephrase hcache _) fun _ _ => ?_
    rw [Attempt.on_rephrase, hmade]
    refine Attempt.Steady.bind (Attempt.Steady.rephrase henter _) fun _ _ => ?_
    rw [Attempt.on_rephrase]
    show Attempt.Steady _ _ _ _ ((j.workspace primary).enter.on made).2
    rw [hentered]
    exact Attempt.Steady.followedBy (Procedure.Steady.mono hruns hinside)
      (Procedure.Steady.bind hremove (Procedure.steady_done _))
  · have hlast : (j.run.on h).2 =
        ((j.workspace primary).remove.run ((j.runIn primary imported).on entered).2).2 := by
      have hentered' : ((Workspace.mk j.settings.cacheRoot j.names.session
          (Build.projectOf primary)).enter.rephrase BuildFault.ofArtifact).on made = (.ok (), entered) :=
        Attempt.on_rephrase_eq_ok_iff.mpr hentered
      rw [run, Build.on_run_of_read hread, Build.runFragments,
        Attempt.on_bind_of_ok (Attempt.on_rephrase_eq_ok_iff.mpr hmade),
        Attempt.on_bind_of_ok hentered', Attempt.on_followedBy]
      exact congrArg Prod.snd (Procedure.run_bind _ _ _)
    intro q hq
    have hne : j.session h ≠ [] := List.concat_ne_nil _ _
    rw [hlast, hgone, Host.withTree_tree, removed_erase_clear _ hne q, if_pos hq]

/-! ### At the same time -/

/-- Builds that keep apart from each other end as they do alone, however they take turns, and leave at
their places what they leave there alone. Their session directories are gone. -/
theorem isolated_of_apart (htree : h'.tree = h.tree) (hj : j.Orderly h) (hk : k.Orderly h')
    (hjk : j.Apart h k h') (hkj : k.Apart h' j h) (hprepares : j.Prepares h)
    (hprepares' : k.Prepares h') {a b : Except BuildFault BuildResult} {t : FileTree}
    (hturns : Interleaved j.run.run h k.run.run h' a b t) :
    (a = (j.run.on h).1 ∧ ∀ q, j.Owns h q → t.get? q = (j.run.on h).2.tree.get? q) ∧
    (b = (k.run.on h').1 ∧ ∀ q, k.Owns h' q → t.get? q = (k.run.on h').2.tree.get? q) ∧
    ∀ q, j.session h <+: q ∨ k.session h' <+: q → t.get? q = none := by
  have hfree : ∀ q, j.Owns h q → ¬ k.Owns h' q := fun q => hjk.disjoint hj hk
  have hfree' : ∀ q, k.Owns h' q → ¬ j.Owns h q := fun q => hkj.disjoint hk hj
  obtain ⟨hsteady, hgone⟩ := hj.steady_run hfree hjk.ways hjk.sources hjk.backEnd (fun _ => id) hprepares
  obtain ⟨hsteady', hgone'⟩ := hk.steady_run hfree' hkj.ways hkj.sources hkj.backEnd (fun _ => id)
    hprepares'
  obtain ⟨⟨hresult, hdrift⟩, hresult', hdrift'⟩ := hturns.safe (hsteady h rfl (.refl _ _ _))
    (hsteady' h' rfl (.refl _ _ _)) htree hj.sound hk.sound
    ⟨hj.ways _ List.mem_cons_self, hjk.ways _ List.mem_cons_self⟩
    ⟨hkj.ways _ List.mem_cons_self, hk.ways _ List.mem_cons_self⟩
  have hsame : ∀ q, j.Owns h q → t.get? q = (j.run.on h).2.tree.get? q :=
    fun q hq => hdrift.firm ⟨hfree q hq, .inl hq⟩
  have hsame' : ∀ q, k.Owns h' q → t.get? q = (k.run.on h').2.tree.get? q :=
    fun q hq => hdrift'.firm ⟨hfree' q hq, .inl hq⟩
  refine ⟨⟨hresult, hsame⟩, ⟨hresult', hsame'⟩, ?_⟩
  rintro q (hq | hq)
  · rw [hsame q (.inl hq), hgone q hq]
  · rw [hsame' q (.inl hq), hgone' q hq]

section Hosts

def copying : BackEnd := fun request => do
  let content ← (Attempt.read request.path).rephrase .file
  return { success := true, binary := some content }

theorem secluded_copying (shared : Place → Prop) (h : Host) : copying.Secluded shared h := by
  intro request h place hready _ _
  have hkept : ((copying request).on h).2 = h := by
    rw [copying, Attempt.on_bind, Attempt.on_rephrase, Attempt.on_read]
    cases h.tree.readFile h.directory request.path <;> rfl
  constructor
  · have hread : ((Attempt.read request.path).rephrase BackEndFault.file).run.Confined
        (fun q => place <+: q ∨ q ∈ h.tree.wayTo true h.directory request.path.parent ∨ shared q)
        (fun q => place <+: q ∧ q ≠ place) h :=
      Procedure.Confined.bind hready.confined_read trivial
    apply hread.bind
    cases (((Attempt.read request.path).rephrase BackEndFault.file).run.run h).1 <;> exact trivial
  · intro name target
    rw [hkept]
    by_cases hname : name = request.path.name
    · rw [hname, hready.document]
      simp
    · rw [hready.only _ (List.prefix_append _ _) (by simp) (by simpa using hname)]
      simp

/-- A build of one script. -/
def ofOutput (output : Path) (session : Text) (copies : CopyNames) : Job where
  backEnd := copying
  settings := { cacheRoot := "/c" }
  options := { output }
  names := ⟨session, copies⟩
  sources := ["/a.csx"]

/-- Two builds that both make the cache root and the directory of their outputs. -/
theorem isolated_of_apart_shared_directory :
    let h : Host := { tree := ⟨[(["a.csx".toList], .file (Text.encode "x") false)]⟩ }
    let j := ofOutput "/o/a.dll" "run" ⟨"t", "u"⟩
    let k := ofOutput "/o/b.dll" "again" ⟨"v", "w"⟩
    ∃ a b t, Interleaved j.run.run h k.run.run h a b t ∧
      (a = (j.run.on h).1 ∧ ∀ q, j.Owns h q → t.get? q = (j.run.on h).2.tree.get? q) ∧
      (b = (k.run.on h).1 ∧ ∀ q, k.Owns h q → t.get? q = (k.run.on h).2.tree.get? q) ∧
      ∀ q, j.session h <+: q ∨ k.session h <+: q → t.get? q = none := by
  intro h j k
  have hsound : h.Sound := ⟨rooted_of_nodes (by decide +kernel), rfl⟩
  have hj : j.Orderly h := ⟨hsound, namesEntry_of_length (by decide), by decide,
    namesEntry_of_length (by decide), by decide +kernel, by decide +kernel, by decide +kernel⟩
  have hk : k.Orderly h := ⟨hsound, namesEntry_of_length (by decide), by decide,
    namesEntry_of_length (by decide), by decide +kernel, by decide +kernel, by decide +kernel⟩
  have hjk : j.Apart h k h := ⟨by decide +kernel, by decide, by decide +kernel, by decide +kernel,
    by decide +kernel, secluded_copying _ _⟩
  have hkj : k.Apart h j h := ⟨by decide +kernel, by decide, by decide +kernel, by decide +kernel,
    by decide +kernel, secluded_copying _ _⟩
  have hprepares : j.Prepares h := ⟨⟨"/a.csx", "x"⟩, [], _, _, _, by decide +kernel,
    Attempt.on_eq (by decide +kernel), Attempt.on_eq (by decide +kernel),
    Attempt.on_eq (by decide +kernel)⟩
  have hprepares' : k.Prepares h := ⟨⟨"/a.csx", "x"⟩, [], _, _, _, by decide +kernel,
    Attempt.on_eq (by decide +kernel), Attempt.on_eq (by decide +kernel),
    Attempt.on_eq (by decide +kernel)⟩
  have hturns := interleaved_of_first j.run.run k.run.run (rfl : h.tree = h.tree)
  exact ⟨_, _, _, hturns, isolated_of_apart rfl hj hk hjk hkj hprepares hprepares' hturns⟩

/-- A link to nowhere leads to the directory of an output, and only another build makes that. -/
theorem not_isolated_through_link :
    let h : Host := { tree := ⟨[(["a.csx".toList], .file (Text.encode "x") false),
      (["link".toList], .link "nowhere")]⟩ }
    let j := ofOutput "/link/x/a.dll" "run" ⟨"t", "u"⟩
    let k := ofOutput "/nowhere/b.dll" "again" ⟨"v", "w"⟩
    j.Orderly h ∧ k.Orderly h ∧ j.Apart h k h ∧ k.Apart h j h ∧ j.Enters h ∧ k.Enters h ∧
      ∃ a b t, Interleaved j.run.run h k.run.run h a b t ∧ a ≠ (j.run.on h).1 := by
  intro h j k
  have hsound : h.Sound := ⟨rooted_of_nodes (by decide +kernel), rfl⟩
  have hj : j.Orderly h := ⟨hsound, namesEntry_of_length (by decide), by decide,
    namesEntry_of_length (by decide), by decide +kernel, by decide +kernel, by decide +kernel⟩
  have hk : k.Orderly h := ⟨hsound, namesEntry_of_length (by decide), by decide,
    namesEntry_of_length (by decide), by decide +kernel, by decide +kernel, by decide +kernel⟩
  have hjk : j.Apart h k h := ⟨by decide +kernel, by decide, by decide +kernel, by decide +kernel,
    by decide +kernel, secluded_copying _ _⟩
  have hkj : k.Apart h j h := ⟨by decide +kernel, by decide, by decide +kernel, by decide +kernel,
    by decide +kernel, secluded_copying _ _⟩
  have henters : j.Enters h := ⟨⟨"/a.csx", "x"⟩, [], _, _, by decide +kernel,
    Attempt.on_eq (by decide +kernel), Attempt.on_eq (by decide +kernel)⟩
  have henters' : k.Enters h := ⟨⟨"/a.csx", "x"⟩, [], _, _, by decide +kernel,
    Attempt.on_eq (by decide +kernel), Attempt.on_eq (by decide +kernel)⟩
  refine ⟨hj, hk, hjk, hkj, henters, henters', _, _, _,
    interleaved_of_first j.run.run k.run.run (rfl : h.tree = h.tree), ?_⟩
  decide +kernel

end Hosts

end Job

end ScriptWeave
