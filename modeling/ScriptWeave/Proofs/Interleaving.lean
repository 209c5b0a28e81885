import ScriptWeave.Proofs.FileTree.Drift
import ScriptWeave.Proofs.FileTree.Preservation

namespace ScriptWeave

open FileTree

variable {ε ε' α β : Type}

/-- Two procedures take turns on one file system, action by action and in any order. Each of them
has a directory and a log of its own. -/
inductive Interleaved : Procedure α → Host → Procedure β → Host → α → β → FileTree → Prop
  | done (a : α) (b : β) (h h' : Host) : Interleaved (.done a) h (.done b) h' a b h.tree
  | left {action : Action} {next : action.Reply → Procedure α} {q : Procedure β} {h h' : Host}
      {a : α} {b : β} {t : FileTree}
      (more : Interleaved (next (action.perform h).1) (action.perform h).2 q
        (h'.withTree (action.perform h).2.tree) a b t) :
      Interleaved (.step action next) h q h' a b t
  | right {p : Procedure α} {action : Action} {next : action.Reply → Procedure β} {h h' : Host}
      {a : α} {b : β} {t : FileTree}
      (more : Interleaved p (h.withTree (action.perform h').2.tree) (next (action.perform h').1)
        (action.perform h').2 a b t) :
      Interleaved p h (.step action next) h' a b t

theorem interleaved_of_done (p : Procedure α) (b : β) (h h' : Host) :
    Interleaved p h (.done b) h' (p.run h).1 b (p.run h).2.tree := by
  induction p generalizing h h' with
  | done a => exact .done a b h h'
  | step action next ih => exact .left (ih _ _ _)

theorem interleaved_of_first (p : Procedure α) (q : Procedure β) {h h' : Host}
    (htree : h'.tree = h.tree) :
    Interleaved p h q h' (p.run (h.withTree (q.run h').2.tree)).1 (q.run h').1
      (p.run (h.withTree (q.run h').2.tree)).2.tree := by
  induction q generalizing h h' with
  | done b =>
      have hsame : h.withTree h'.tree = h := by rw [htree]; rfl
      rw [Procedure.run, hsame]
      exact interleaved_of_done p b h h'
  | step action next ih => exact .right (ih _ rfl)

/-! ### Safety -/

/-- The host a while later, when others have done what they may. -/
structure Host.Later (rely : FileTree → FileTree → Prop) (h h' : Host) : Prop where
  directory : h'.directory = h.directory
  sound : h'.Sound
  tree : rely h.tree h'.tree

/-- Whatever others do in between of what it relies on, the procedure does nothing but what it
guarantees, and what is claimed of its end is true then. -/
def Procedure.Safe (rely guarantee : FileTree → FileTree → Prop) (post : α → FileTree → Prop) :
    Procedure α → Host → Prop
  | .done a, h => ∀ h', h.Later rely h' → post a h'.tree
  | .step action next, h => ∀ h', h.Later rely h' →
      guarantee h'.tree (action.perform h').2.tree ∧
        Safe rely guarantee post (next (action.perform h').1) (action.perform h').2

namespace Procedure

variable {rely guarantee rely' guarantee' : FileTree → FileTree → Prop}
variable {post post' : α → FileTree → Prop} {p : Procedure α} {h h' : Host}

theorem Safe.later (htrans : ∀ {t t' t''}, rely t t' → rely t' t'' → rely t t'')
    (hp : p.Safe rely guarantee post h) (hlater : h.Later rely h') :
    p.Safe rely guarantee post h' := by
  have htwice : ∀ after, h'.Later rely after → h.Later rely after := fun after hafter =>
    ⟨hafter.directory.trans hlater.directory, hafter.sound, htrans hlater.tree hafter.tree⟩
  cases p with
  | done a => exact fun after hafter => hp after (htwice after hafter)
  | step action next => exact fun after hafter => hp after (htwice after hafter)

theorem safe_of_later (hrefl : ∀ t, rely t t)
    (hp : ∀ h', h.Later rely h' → p.Safe rely guarantee post h') :
    p.Safe rely guarantee post h := by
  have hself : ∀ h', h.Later rely h' → h'.Later rely h' := fun h' hlater =>
    ⟨rfl, hlater.sound, hrefl _⟩
  cases p with
  | done a => exact fun h' hlater => hp h' hlater h' (hself h' hlater)
  | step action next => exact fun h' hlater => hp h' hlater h' (hself h' hlater)

theorem Safe.mono (hp : p.Safe rely guarantee post h) (hrely : ∀ t t', rely' t t' → rely t t')
    (hguarantee : ∀ t t', guarantee t t' → guarantee' t t')
    (hpost : ∀ a t, post a t → post' a t) : p.Safe rely' guarantee' post' h := by
  induction p generalizing h with
  | done a =>
      intro h' hlater
      exact hpost _ _ (hp h' ⟨hlater.directory, hlater.sound, hrely _ _ hlater.tree⟩)
  | step action next ih =>
      intro h' hlater
      obtain ⟨hstep, hrest⟩ := hp h' ⟨hlater.directory, hlater.sound, hrely _ _ hlater.tree⟩
      exact ⟨hguarantee _ _ hstep, ih _ hrest⟩

theorem Safe.bind {f : α → Procedure β} {goal : β → FileTree → Prop} (hrefl : ∀ t, rely t t)
    (hp : p.Safe rely guarantee post h)
    (hf : ∀ a h', h'.directory = h.directory → h'.Sound → post a h'.tree →
      (f a).Safe rely guarantee goal h') :
    (p.bind f).Safe rely guarantee goal h := by
  induction p generalizing h with
  | done a =>
      apply safe_of_later hrefl
      intro h' hlater
      exact hf a h' hlater.directory hlater.sound (hp h' hlater)
  | step action next ih =>
      intro h' hlater
      obtain ⟨hstep, hrest⟩ := hp h' hlater
      refine ⟨hstep, ih _ hrest fun a after hdirectory => hf a after ?_⟩
      rw [hdirectory, Attempt.perform_directory, hlater.directory]

theorem Safe.sound (hp : p.Safe rely guarantee post h) :
    p.Safe rely guarantee (fun a t => post a t ∧ (h.withTree t).Sound) h := by
  induction p generalizing h with
  | done a =>
      intro h' hlater
      refine ⟨hp h' hlater, hlater.sound.rooted, ?_⟩
      rw [Host.withTree_directory, ← hlater.directory]
      exact hlater.sound.standing
  | step action next ih =>
      intro h' hlater
      obtain ⟨hstep, hrest⟩ := hp h' hlater
      refine ⟨hstep, (ih _ hrest).mono (fun _ _ => id) (fun _ _ => id) ?_⟩
      rintro a t ⟨hpost, hrooted, hstanding⟩
      have hdirectory := (Attempt.perform_directory action h').trans hlater.directory
      rw [Host.withTree_directory, hdirectory] at hstanding
      exact ⟨hpost, hrooted, hstanding⟩

theorem Safe.track (move : FileTree → FileTree → Prop) (hp : p.Safe rely guarantee post h)
    (htrans : ∀ {t t' t''}, move t t' → move t' t'' → move t t'')
    (hrely : ∀ t t', rely t t' → move t t') (hguarantee : ∀ t t', guarantee t t' → move t t')
    {start : FileTree} (hstart : move start h.tree) :
    p.Safe rely guarantee (fun a t => post a t ∧ move start t) h := by
  induction p generalizing h with
  | done a =>
      intro h' hlater
      exact ⟨hp h' hlater, htrans hstart (hrely _ _ hlater.tree)⟩
  | step action next ih =>
      intro h' hlater
      obtain ⟨hstep, hrest⟩ := hp h' hlater
      have hmoved := htrans hstart (hrely _ _ hlater.tree)
      exact ⟨hstep, ih _ hrest (htrans hmoved (hguarantee _ _ hstep))⟩

theorem Safe.run (hp : p.Safe rely guarantee post h) (hrefl : ∀ t, rely t t)
    (hsound : h.Sound)
    (hstands : ∀ t t', guarantee t t' → t.get? h.directory = some .directory →
      t'.get? h.directory = some .directory) :
    post (p.run h).1 (p.run h).2.tree ∧ (p.run h).2.Sound := by
  induction p generalizing h with
  | done a => exact ⟨hp h ⟨rfl, hsound, hrefl _⟩, hsound⟩
  | step action next ih =>
      obtain ⟨hstep, hrest⟩ := hp h ⟨rfl, hsound, hrefl _⟩
      have hdirectory := Attempt.perform_directory action h
      apply ih _ hrest
      · refine ⟨action.perform_rooted hsound, ?_⟩
        rw [hdirectory]
        exact hstands _ _ hstep hsound.standing
      · rw [hdirectory]
        exact hstands

end Procedure

theorem Interleaved.safe {own other : Place → Prop} {p : Procedure α} {q : Procedure β}
    {h h' : Host} {a : α} {b : β} {t : FileTree} {post : α → FileTree → Prop}
    {post' : β → FileTree → Prop} (hturns : Interleaved p h q h' a b t)
    (hp : p.Safe (Drift own other) (Drift other own) post h)
    (hq : q.Safe (Drift other own) (Drift own other) post' h')
    (htree : h'.tree = h.tree) (hsound : h.Sound) (hsound' : h'.Sound)
    (hdirectory : ¬ own h.directory ∧ ¬ other h.directory)
    (hdirectory' : ¬ own h'.directory ∧ ¬ other h'.directory) : post a t ∧ post' b t := by
  induction hturns with
  | done a b h h' =>
      refine ⟨hp h ⟨rfl, hsound, .refl _ _ _⟩, ?_⟩
      rw [← htree]
      exact hq h' ⟨rfl, hsound', .refl _ _ _⟩
  | @left action next q h h' a b t more ih =>
      obtain ⟨hstep, hrest⟩ := hp h ⟨rfl, hsound, .refl _ _ _⟩
      have hrooted := action.perform_rooted hsound
      have hstays := hstep.standing hdirectory.1 hsound.standing
      have hstays' : (action.perform h).2.tree.get? h'.directory = some .directory :=
        hstep.standing hdirectory'.1 (htree ▸ hsound'.standing)
      have hafter : (h'.withTree (action.perform h).2.tree).Sound := ⟨hrooted, hstays'⟩
      rw [← Attempt.perform_directory action h] at hdirectory hstays
      exact ih hrest (hq.later Drift.trans ⟨rfl, hafter, htree ▸ hstep⟩) rfl ⟨hrooted, hstays⟩ hafter
        hdirectory hdirectory'
  | @right p action next h h' a b t more ih =>
      obtain ⟨hstep, hrest⟩ := hq h' ⟨rfl, hsound', .refl _ _ _⟩
      have hrooted := action.perform_rooted hsound'
      have hstays := hstep.standing hdirectory'.2 hsound'.standing
      have hstays' : (action.perform h').2.tree.get? h.directory = some .directory :=
        hstep.standing hdirectory.2 (htree ▸ hsound.standing)
      have hafter : (h.withTree (action.perform h').2.tree).Sound := ⟨hrooted, hstays'⟩
      rw [← Attempt.perform_directory action h'] at hdirectory' hstays
      exact ih (hp.later Drift.trans ⟨rfl, hafter, htree ▸ hstep⟩) hrest rfl hafter ⟨hrooted, hstays⟩
        hdirectory hdirectory'

/-! ### Steadiness -/

/-- However others interfere, the procedure ends as it would alone on a host on which they have done
nothing yet, and it changes nothing but its own places. -/
def Procedure.Steady (own kept foreign : Place → Prop) (p : Procedure α) (h : Host) : Prop :=
  ∀ h', h'.directory = h.directory → Drift kept foreign h.tree h'.tree →
    p.Safe (Drift kept foreign) (Drift foreign own)
      (fun a t => a = (p.run h).1 ∧ Drift kept foreign (p.run h).2.tree t) h'

section Steady

variable {own own' kept foreign : Place → Prop} {h : Host}

theorem Procedure.steady_done (a : α) : (Procedure.done a).Steady own kept foreign h :=
  fun _ _ hdrift _ hlater => ⟨rfl, hdrift.trans hlater.tree⟩

theorem Procedure.Steady.mono {p : Procedure α} (hp : p.Steady own kept foreign h)
    (hown : ∀ q, own q → own' q) : p.Steady own' kept foreign h :=
  fun h' hdirectory hdrift => (hp h' hdirectory hdrift).mono (fun _ _ => id)
    (fun _ _ hstep => hstep.mono (fun _ => id) hown) fun _ _ => id

theorem Procedure.Steady.bind {p : Procedure α} {f : α → Procedure β}
    (hp : p.Steady own kept foreign h)
    (hf : (f (p.run h).1).Steady own kept foreign (p.run h).2) :
    (p.bind f).Steady own kept foreign h := by
  intro h' hdirectory hdrift
  rw [Procedure.run_bind]
  apply (hp h' hdirectory hdrift).bind (Drift.refl _ _)
  rintro _ after hafter - ⟨rfl, hdrift'⟩
  exact hf after (hafter.trans (hdirectory.trans (Attempt.run_directory p h).symm)) hdrift'

theorem Procedure.Steady.alone {p : Procedure α} (hp : p.Steady own kept foreign h)
    (hsound : h.Sound) (hdirectory : ¬ own h.directory) :
    Drift foreign own h.tree (p.run h).2.tree ∧ (p.run h).2.Sound := by
  have hsame : ∀ (kept foreign : Place → Prop) (t t' : FileTree), t' = t → Drift kept foreign t t' := by
    intro kept foreign t t' hsame
    rw [hsame]
    exact .refl kept foreign t
  have halone : p.Safe (fun t t' => t' = t) (Drift foreign own) (fun _ _ => True) h :=
    (hp h rfl (.refl _ _ _)).mono (hsame kept foreign) (fun _ _ => id) fun _ _ _ => trivial
  have htracked := halone.track (Drift foreign own) Drift.trans (hsame foreign own) (fun _ _ => id)
    (.refl _ _ h.tree)
  obtain ⟨⟨-, hdrift⟩, hsound'⟩ := htracked.run (fun _ => rfl) hsound
    fun _ _ hstep => hstep.standing hdirectory
  exact ⟨hdrift, hsound'⟩

theorem Procedure.steady_log (level : LogLevel) (source message : Text) (h : Host) :
    (Procedure.log level source message).Steady own kept foreign h :=
  fun _ _ hdrift _ hlater => ⟨.refl _ _ _, fun _ hafter =>
    ⟨rfl, (hdrift.trans hlater.tree).trans hafter.tree⟩⟩

namespace Attempt

variable {x : Attempt ε α}

def Steady (own kept foreign : Place → Prop) (x : Attempt ε α) (h : Host) : Prop :=
  x.run.Steady own kept foreign h

theorem steady_pure (a : α) : (pure a : Attempt ε α).Steady own kept foreign h :=
  Procedure.steady_done _

theorem steady_throw (e : ε) : (throw e : Attempt ε α).Steady own kept foreign h :=
  Procedure.steady_done _

theorem steady_ofOutcome (outcome : Except ε α) : (ofOutcome outcome).Steady own kept foreign h :=
  Procedure.steady_done _

theorem steady_lift {p : Procedure α} (hp : p.Steady own kept foreign h) :
    (monadLift p : Attempt ε α).Steady own kept foreign h :=
  hp.bind (Procedure.steady_done _)

theorem Steady.bind {f : α → Attempt ε β} (hx : x.Steady own kept foreign h)
    (hf : ∀ a, (x.on h).1 = .ok a → (f a).Steady own kept foreign (x.on h).2) :
    (x >>= f).Steady own kept foreign h := by
  apply Procedure.Steady.bind hx
  show Procedure.Steady own kept foreign (match (x.on h).1 with
    | .ok a => (f a).run
    | .error e => Procedure.done (.error e)) (x.on h).2
  cases hresult : (x.on h).1 with
  | ok a => exact hf a hresult
  | error e => exact Procedure.steady_done _

theorem Steady.rephrase (hx : x.Steady own kept foreign h) (tell : ε → ε') :
    (x.rephrase tell).Steady own kept foreign h :=
  Procedure.Steady.bind hx (Procedure.steady_done _)

theorem Steady.outcome (hx : x.Steady own kept foreign h) :
    (x.outcome : Attempt ε' (Except ε α)).Steady own kept foreign h :=
  Procedure.Steady.bind hx (Procedure.steady_done _)

theorem Steady.followedBy {last : Procedure Unit} (hx : x.Steady own kept foreign h)
    (hlast : last.Steady own kept foreign (x.on h).2) :
    (x.followedBy last).Steady own kept foreign h :=
  Procedure.Steady.bind hx (hlast.bind (Procedure.steady_done _))

end Attempt

end Steady

end ScriptWeave
