import ScriptWeave.Host

namespace ScriptWeave

def Host.withTree (h : Host) (tree : FileTree) : Host := { h with tree }

@[simp] theorem Host.withTree_tree (h : Host) (tree : FileTree) : (h.withTree tree).tree = tree :=
  rfl

@[simp] theorem Host.withTree_directory (h : Host) (tree : FileTree) :
    (h.withTree tree).directory = h.directory := rfl

theorem Host.attempt_eq_ok_iff {h h' : Host} {p : Path} {change : Except FileCause FileTree} :
    h.attempt p change = (.ok (), h') ↔ ∃ tree, change = .ok tree ∧ h' = h.withTree tree := by
  cases change with
  | error cause => simp [Host.attempt]
  | ok tree => simp [Host.attempt, Host.withTree, eq_comm]

namespace Attempt

variable {ε ε' α β : Type} {x : Attempt ε α} {h h' : Host}

/-- How an attempt ends on a host, with the host after it. -/
def on (x : Attempt ε α) (h : Host) : Except ε α × Host := x.run.run h

theorem on_eq {result : Except ε α} (hresult : (x.on h).1 = result) :
    x.on h = (result, (x.on h).2) :=
  Prod.ext hresult rfl

theorem on_pure (a : α) : (pure a : Attempt ε α).on h = (.ok a, h) := rfl

theorem on_throw (e : ε) : (throw e : Attempt ε α).on h = (.error e, h) := rfl

theorem on_bind (f : α → Attempt ε β) :
    (x >>= f).on h =
      match x.on h with
      | (.ok a, h') => (f a).on h'
      | (.error e, h') => (.error e, h') := by
  show Procedure.run (Procedure.bind x.run _) h = _
  rw [Procedure.run_bind, on]
  obtain ⟨result, after⟩ := x.run.run h
  cases result <;> rfl

theorem on_bind_of_ok {f : α → Attempt ε β} {a : α} (hx : x.on h = (.ok a, h')) :
    (x >>= f).on h = (f a).on h' := by
  rw [on_bind, hx]

theorem on_bind_eq_ok_iff {f : α → Attempt ε β} {b : β} :
    (x >>= f).on h = (.ok b, h') ↔
      ∃ a between, x.on h = (.ok a, between) ∧ (f a).on between = (.ok b, h') := by
  rw [on_bind]
  obtain ⟨result, after⟩ := x.on h
  cases result with
  | error e => simp
  | ok a =>
      constructor
      · exact fun hf => ⟨a, after, rfl, hf⟩
      · rintro ⟨_, _, ⟨⟩, hf⟩
        exact hf

theorem on_bind_cases {f : α → Attempt ε β} {result : Except ε β}
    (hon : (x >>= f).on h = (result, h')) :
    (∃ e, x.on h = (.error e, h') ∧ result = .error e) ∨
      ∃ a between, x.on h = (.ok a, between) ∧ (f a).on between = (result, h') := by
  rw [on_bind] at hon
  cases hx : x.on h with
  | mk first between =>
      rw [hx] at hon
      cases first with
      | error e =>
          obtain ⟨rfl, rfl⟩ := Prod.mk.inj hon
          exact .inl ⟨e, rfl, rfl⟩
      | ok a => exact .inr ⟨a, between, rfl, hon⟩

theorem on_outcome : (x.outcome : Attempt ε' (Except ε α)).on h = (.ok (x.on h).1, (x.on h).2) := by
  show Procedure.run (Procedure.bind x.run _) h = _
  rw [Procedure.run_bind]
  rfl

theorem on_outcome_eq_ok_iff {result : Except ε α} :
    (x.outcome : Attempt ε' (Except ε α)).on h = (.ok result, h') ↔ x.on h = (result, h') := by
  rw [on_outcome, Prod.mk.injEq, Except.ok.injEq, ← Prod.mk.injEq]

theorem on_ofOutcome (outcome : Except ε α) : (ofOutcome outcome).on h = (outcome, h) := rfl

theorem on_ofOutcome_eq_ok_iff {outcome : Except ε α} {a : α} :
    (ofOutcome outcome).on h = (.ok a, h') ↔ outcome = .ok a ∧ h = h' := by
  rw [on_ofOutcome, Prod.mk.injEq]

theorem on_rephrase (tell : ε → ε') :
    (x.rephrase tell).on h = ((x.on h).1.mapError tell, (x.on h).2) := by
  show Procedure.run (Procedure.bind x.run _) h = _
  rw [Procedure.run_bind]
  rfl

theorem mapError_eq_ok_iff {tell : ε → ε'} {result : Except ε α} {a : α} :
    result.mapError tell = .ok a ↔ result = .ok a := by
  cases result with
  | error e => exact ⟨nofun, nofun⟩
  | ok b => constructor <;> (rintro ⟨⟩; rfl)

theorem on_rephrase_eq_ok_iff {tell : ε → ε'} {a : α} :
    (x.rephrase tell).on h = (.ok a, h') ↔ x.on h = (.ok a, h') := by
  rw [on_rephrase, Prod.mk.injEq, mapError_eq_ok_iff, ← Prod.mk.injEq]

theorem on_followedBy (last : Procedure Unit) :
    (x.followedBy last).on h = ((x.on h).1, (last.run (x.on h).2).2) := by
  show Procedure.run (Procedure.bind x.run _) h = _
  rw [Procedure.run_bind]
  show Procedure.run (Procedure.bind last _) _ = _
  rw [Procedure.run_bind]
  rfl

theorem on_lift (p : Procedure α) :
    (monadLift p : Attempt ε α).on h = (.ok (p.run h).1, (p.run h).2) := by
  show Procedure.run (Procedure.bind p _) h = _
  rw [Procedure.run_bind]
  rfl

theorem on_rephrase_bind_cases {tell : ε → ε'} {f : α → Attempt ε' β} {result : Except ε' β}
    (hon : (x.rephrase tell >>= f).on h = (result, h')) :
    (∃ e, x.on h = (.error e, h') ∧ result = .error (tell e)) ∨
      ∃ a between, x.on h = (.ok a, between) ∧ (f a).on between = (result, h') := by
  rcases on_bind_cases hon with ⟨e, hfirst, rfl⟩ | ⟨a, between, hfirst, hrest⟩
  · rw [on_rephrase, Prod.mk.injEq] at hfirst
    obtain ⟨hresult, rfl⟩ := hfirst
    cases hx : (x.on h).1 with
    | ok a =>
        rw [hx] at hresult
        exact nomatch hresult
    | error e' =>
        rw [hx] at hresult
        exact .inl ⟨e', on_eq hx, congrArg _ (Except.error.inj hresult).symm⟩
  · exact .inr ⟨a, between, on_rephrase_eq_ok_iff.mp hfirst, hrest⟩

variable {p q : Path} {content : Bytes}

theorem on_isPresent :
    (isPresent p).on h = ((h.tree.exists? h.directory p).mapError fun cause => ⟨cause, p⟩, h) := rfl

theorem on_read :
    (read p).on h = ((h.tree.readFile h.directory p).mapError fun cause => ⟨cause, p⟩, h) := rfl

theorem on_read_eq_ok_iff :
    (read p).on h = (.ok content, h') ↔ h.tree.readFile h.directory p = .ok content ∧ h = h' := by
  rw [on_read, Prod.mk.injEq, mapError_eq_ok_iff]

theorem on_makeDirectory :
    (makeDirectory p).on h = h.attempt p (h.tree.makeDirectory h.directory p) := rfl

theorem on_makeDirectory_eq_ok_iff :
    (makeDirectory p).on h = (.ok (), h') ↔
      ∃ tree, h.tree.makeDirectory h.directory p = .ok tree ∧ h' = h.withTree tree :=
  Host.attempt_eq_ok_iff

theorem on_write_eq_ok_iff :
    (write p content).on h = (.ok (), h') ↔
      ∃ tree, h.tree.writeFile h.directory p content = .ok tree ∧ h' = h.withTree tree :=
  Host.attempt_eq_ok_iff

theorem on_append_eq_ok_iff :
    (append p content).on h = (.ok (), h') ↔
      ∃ tree, h.tree.appendFile h.directory p content = .ok tree ∧ h' = h.withTree tree :=
  Host.attempt_eq_ok_iff

theorem on_move_eq_ok_iff :
    (move p q).on h = (.ok (), h') ↔
      ∃ tree, h.tree.rename h.directory p q = .ok tree ∧ h' = h.withTree tree :=
  Host.attempt_eq_ok_iff

theorem on_removeFile :
    (removeFile p).on h = h.attempt p (h.tree.removeFile h.directory p) := rfl

theorem on_removeTree :
    (removeTree p).on h = ((h.tree.removeTree h.directory p).2.mapError fun cause => ⟨cause, p⟩,
      h.withTree (h.tree.removeTree h.directory p).1) := rfl

theorem perform_directory (a : Action) (h : Host) : (a.perform h).2.directory = h.directory := by
  have hattempt : ∀ (p : Path) (change : Except FileCause FileTree),
      (h.attempt p change).2.directory = h.directory := by
    intro p change
    cases change <;> rfl
  cases a <;> first | rfl | exact hattempt _ _

theorem run_directory (p : Procedure α) (h : Host) : (p.run h).2.directory = h.directory := by
  induction p generalizing h with
  | done a => rfl
  | step action next ih => exact (ih _ _).trans (perform_directory action h)

theorem on_directory (x : Attempt ε α) (h : Host) : (x.on h).2.directory = h.directory :=
  run_directory x.run h

def Keeps {γ : Type} (view : Host → γ) (x : Attempt ε α) : Prop := ∀ h, view (x.on h).2 = view h

variable {γ : Type} {view : Host → γ}

theorem keeps_pure (a : α) : Keeps view (pure a : Attempt ε α) := fun _ => rfl

theorem keeps_ofOutcome (outcome : Except ε α) : Keeps view (ofOutcome outcome) := fun _ => rfl

theorem Keeps.bind {f : α → Attempt ε β} (hx : Keeps view x) (hf : ∀ a, Keeps view (f a)) :
    Keeps view (x >>= f) := by
  intro h
  have hfirst := hx h
  rw [on_bind]
  split
  · rename_i a between hon
    rw [hon] at hfirst
    rw [hf a between, hfirst]
  · rename_i e between hon
    rwa [hon] at hfirst

theorem Keeps.rephrase (hx : Keeps view x) (tell : ε → ε') : Keeps view (x.rephrase tell) := by
  intro h
  rw [on_rephrase]
  exact hx h

theorem keeps_lift {p : Procedure α} (hp : ∀ h, view (p.run h).2 = view h) :
    Keeps view (monadLift p : Attempt ε α) := by
  intro h
  rw [on_lift]
  exact hp h

def Yields (wanted : α → Prop) (x : Attempt ε α) : Prop := ∀ h a, (x.on h).1 = .ok a → wanted a

variable {wanted : β → Prop}

theorem yields_pure {b : β} (hb : wanted b) : Yields wanted (pure b : Attempt ε β) := by
  rintro h _ ⟨⟩
  exact hb

theorem Yields.bind {f : α → Attempt ε β} (hf : ∀ a, Yields wanted (f a)) :
    Yields wanted (x >>= f) := by
  intro h b hon
  obtain ⟨a, between, -, hrest⟩ := on_bind_eq_ok_iff.mp (on_eq hon)
  exact hf a between b (congrArg Prod.fst hrest)

theorem Yields.rephrase {y : Attempt ε β} (hy : Yields wanted y) (tell : ε → ε') :
    Yields wanted (y.rephrase tell) := by
  intro h b hon
  rw [on_rephrase, mapError_eq_ok_iff] at hon
  exact hy h b hon

end Attempt

end ScriptWeave
