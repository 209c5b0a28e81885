import Mathlib.Data.List.Basic
import ScriptWeave.Proofs.Runs

namespace ScriptWeave

variable {ε ε' α β : Type}

namespace Procedure

variable {p : Procedure α} {h s : Host}

theorem mem_states_start (p : Procedure α) (h : Host) : h ∈ p.states h := by
  cases p with
  | done a => exact List.mem_singleton.mpr rfl
  | step action next => exact List.mem_cons_self

theorem mem_states_run (p : Procedure α) (h : Host) : (p.run h).2 ∈ p.states h := by
  induction p generalizing h with
  | done a => exact List.mem_singleton.mpr rfl
  | step action next ih => exact List.mem_cons_of_mem _ (ih _ _)

theorem mem_states_bind {f : α → Procedure β} :
    s ∈ (bind p f).states h ↔ s ∈ p.states h ∨ s ∈ (f (p.run h).1).states (p.run h).2 := by
  induction p generalizing h with
  | done a =>
      refine ⟨.inr, fun hs => hs.elim (fun hsame => ?_) id⟩
      exact List.mem_singleton.mp hsame ▸ mem_states_start _ _
  | step action next ih =>
      simp only [bind, states, run, List.mem_cons, ih]
      exact or_assoc.symm

theorem states_map (f : α → β) : (bind p fun a => .done (f a)).states h = p.states h := by
  induction p generalizing h with
  | done a => rfl
  | step action next ih => simp only [bind, states, ih]

def Asks (allowed : Action → Prop) : Procedure α → Prop
  | .done _ => True
  | .step action next => allowed action ∧ ∀ reply, Asks allowed (next reply)

variable {allowed : Action → Prop}

theorem Asks.bind {f : α → Procedure β} (hp : p.Asks allowed) (hf : ∀ a, (f a).Asks allowed) :
    (p.bind f).Asks allowed := by
  induction p with
  | done a => exact hf a
  | step action next ih => exact ⟨hp.1, fun reply => ih reply (hp.2 reply)⟩

theorem asks_ask {action : Action} (haction : allowed action) : (ask action).Asks allowed :=
  ⟨haction, fun _ => trivial⟩

theorem Asks.states {motive : Host → Prop} (hp : p.Asks allowed)
    (hstep : ∀ action h, allowed action → motive h → motive (action.perform h).2)
    (hstart : motive h) : ∀ s ∈ p.states h, motive s := by
  induction p generalizing h with
  | done a => exact fun s hs => List.mem_singleton.mp hs ▸ hstart
  | step action next ih =>
      intro s hs
      rcases List.mem_cons.mp hs with rfl | hs
      · exact hstart
      · exact ih _ (hp.2 _) (hstep action h hp.1 hstart) s hs

end Procedure

namespace Attempt

section Asks

variable {allowed : Action → Prop} {x : Attempt ε α}

theorem asks_bind {f : α → Attempt ε β} (hx : x.run.Asks allowed)
    (hf : ∀ a, (f a).run.Asks allowed) : (x >>= f).run.Asks allowed := by
  apply Procedure.Asks.bind hx
  rintro (e | a)
  · exact trivial
  · exact hf a

theorem asks_outcome (hx : x.run.Asks allowed) :
    (x.outcome : Attempt ε' (Except ε α)).run.Asks allowed :=
  Procedure.Asks.bind hx fun _ => trivial

theorem asks_lift {p : Procedure α} (hp : p.Asks allowed) :
    (monadLift p : Attempt ε α).run.Asks allowed :=
  Procedure.Asks.bind hp fun _ => trivial

end Asks

structure Course (always : FileTree → Prop) (ends : Except ε α → Host → Prop) (x : Attempt ε α)
    (h : Host) : Prop where
  along : ∀ s ∈ x.run.states h, always s.tree
  ends : ends (x.on h).1 (x.on h).2

variable {always always' : FileTree → Prop} {ends ends' : Except ε α → Host → Prop}
variable {x : Attempt ε α} {h : Host}

theorem Course.mono (hx : x.Course always ends h) (halways : ∀ t, always t → always' t)
    (hends : ∀ result h', ends result h' → ends' result h') : x.Course always' ends' h :=
  ⟨fun s hs => halways _ (hx.along s hs), hends _ _ hx.ends⟩

theorem course_ofOutcome {outcome : Except ε α} (halways : always h.tree) (hends : ends outcome h) :
    (ofOutcome outcome).Course always ends h :=
  ⟨fun _ hs => List.mem_singleton.mp hs ▸ halways, hends⟩

theorem course_pure {a : α} (halways : always h.tree) (hends : ends (.ok a) h) :
    (pure a : Attempt ε α).Course always ends h :=
  course_ofOutcome halways hends

theorem course_throw {e : ε} (halways : always h.tree) (hends : ends (.error e) h) :
    (throw e : Attempt ε α).Course always ends h :=
  course_ofOutcome halways hends

theorem course_action (hstates : x.run.states h = [h, (x.on h).2]) (halways : always h.tree)
    (hafter : always (x.on h).2.tree) (hends : ends (x.on h).1 (x.on h).2) :
    x.Course always ends h := by
  refine ⟨fun s hs => ?_, hends⟩
  rw [hstates] at hs
  rcases List.mem_pair.mp hs with rfl | rfl
  · exact halways
  · exact hafter

theorem course_lift {p : Procedure α} (halong : ∀ s ∈ p.states h, always s.tree)
    (hends : ends (.ok (p.run h).1) (p.run h).2) :
    (monadLift p : Attempt ε α).Course always ends h := by
  constructor
  · show ∀ s ∈ (Procedure.bind p fun a => .done (.ok a : Except ε α)).states h, always s.tree
    rwa [Procedure.states_map]
  · rwa [on_lift]

theorem Course.bind {f : α → Attempt ε β} {goal : Except ε β → Host → Prop}
    (hx : x.Course always ends h)
    (hf : ∀ a h', h'.directory = h.directory → always h'.tree → ends (.ok a) h' →
      (f a).Course always goal h')
    (herror : ∀ e h', h'.directory = h.directory → ends (.error e) h' → goal (.error e) h') :
    (x >>= f).Course always goal h := by
  have hdirectory := on_directory x h
  have hthere := hx.along _ (Procedure.mem_states_run x.run h)
  have hlast := hx.ends
  have hstates : ∀ s ∈ (x >>= f).run.states h, s ∈ x.run.states h ∨
      s ∈ (match (x.on h).1 with
        | .ok a => (f a).run
        | .error e => .done (.error e)).states (x.on h).2 := fun s => Procedure.mem_states_bind.mp
  cases hresult : (x.on h).1 with
  | ok a =>
      rw [hresult] at hlast hstates
      have hrest := hf a _ hdirectory hthere hlast
      constructor
      · exact fun s hs => (hstates s hs).elim (hx.along s) (hrest.along s)
      · rw [on_bind, on_eq hresult]
        exact hrest.ends
  | error e =>
      rw [hresult] at hlast hstates
      constructor
      · rintro s hs
        rcases hstates s hs with hfirst | hsame
        · exact hx.along s hfirst
        · exact List.mem_singleton.mp hsame ▸ hthere
      · rw [on_bind, on_eq hresult]
        exact herror e _ hdirectory hlast

theorem Course.outcome (hx : x.Course always ends h) :
    (x.outcome : Attempt ε' (Except ε α)).Course always
      (fun result h' => ∃ outcome, result = .ok outcome ∧ ends outcome h') h := by
  constructor
  · show ∀ s ∈ (Procedure.bind x.run fun a => .done (.ok a : Except ε' (Except ε α))).states h,
      always s.tree
    rw [Procedure.states_map]
    exact hx.along
  · rw [on_outcome]
    exact ⟨_, rfl, hx.ends⟩

theorem Course.rephrase (hx : x.Course always ends h) (tell : ε → ε') :
    (x.rephrase tell).Course always
      (fun result h' => ∃ outcome, result = outcome.mapError tell ∧ ends outcome h') h := by
  constructor
  · show ∀ s ∈ (Procedure.bind x.run fun a => .done (a.mapError tell)).states h, always s.tree
    rw [Procedure.states_map]
    exact hx.along
  · rw [on_rephrase]
    exact ⟨_, rfl, hx.ends⟩

end Attempt

end ScriptWeave
