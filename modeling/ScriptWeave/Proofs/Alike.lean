import ScriptWeave.Build
import ScriptWeave.Proofs.Directories
import ScriptWeave.Proofs.FileTree.Resolving

namespace ScriptWeave

open FileTree

structure Host.Alike (h h' : Host) : Prop where
  directory : h'.directory = h.directory
  tree : ∀ p, h'.tree.get? p = h.tree.get? p

namespace Host

variable {h h' : Host} {writes : Place → Prop}

theorem Alike.symm (halike : h.Alike h') : h'.Alike h :=
  ⟨halike.directory.symm, fun p => (halike.tree p).symm⟩

theorem Alike.agreeOn (halike : h.Alike h') (places : Place → Prop) :
    AgreeOn places h.tree h'.tree :=
  fun p _ => halike.tree p

theorem Alike.attempt {change change' : Except FileCause FileTree} (halike : h.Alike h')
    (hsame : SameChange writes h.tree h'.tree change change') (p : Path) :
    (h'.attempt p change').1 = (h.attempt p change).1 ∧
      (h.attempt p change).2.Alike (h'.attempt p change').2 := by
  cases hsame with
  | failed cause => exact ⟨rfl, halike⟩
  | changed inside outside =>
      refine ⟨rfl, halike.directory, fun q => ?_⟩
      by_cases hq : writes q
      · exact inside q hq
      · obtain ⟨hsame, hsame'⟩ := outside q hq
        exact hsame'.trans ((halike.tree q).trans hsame.symm)

end Host

variable {ε ε' α β : Type} {h h' : Host}

/-- Ends the same on both hosts and leaves them holding the same. -/
def Procedure.Matches (p : Procedure α) (h h' : Host) : Prop :=
  (p.run h').1 = (p.run h).1 ∧ (p.run h).2.Alike (p.run h').2

/-- Does so on every host that holds the same. -/
def Procedure.Extensional (p : Procedure α) (h : Host) : Prop :=
  ∀ h', h.Alike h' → p.Matches h h'

theorem Procedure.extensional_done (a : α) : (Procedure.done a).Extensional h :=
  fun _ halike => ⟨rfl, halike⟩

theorem Procedure.Matches.symm {p : Procedure α} (hp : p.Matches h h') : p.Matches h' h :=
  ⟨hp.1.symm, hp.2.symm⟩

theorem Procedure.Matches.bind {p : Procedure α} {f : α → Procedure β} (hp : p.Matches h h')
    (hf : (f (p.run h).1).Extensional (p.run h).2) : (p.bind f).Matches h h' := by
  obtain ⟨hresult, hafter⟩ := hp
  rw [Procedure.Matches, Procedure.run_bind, Procedure.run_bind, hresult]
  exact hf _ hafter

theorem Procedure.Extensional.bind {p : Procedure α} {f : α → Procedure β}
    (hp : p.Extensional h) (hf : (f (p.run h).1).Extensional (p.run h).2) :
    (p.bind f).Extensional h :=
  fun h' halike => (hp h' halike).bind hf

theorem Procedure.extensional_log (level : LogLevel) (source message : Text) (h : Host) :
    (Procedure.log level source message).Extensional h :=
  fun _ halike => ⟨rfl, halike.directory, halike.tree⟩

namespace Attempt

def Matches (x : Attempt ε α) (h h' : Host) : Prop := x.run.Matches h h'

def Extensional (x : Attempt ε α) (h : Host) : Prop := x.run.Extensional h

variable {x : Attempt ε α} {p q : Path}

theorem extensional_pure (a : α) : (pure a : Attempt ε α).Extensional h :=
  Procedure.extensional_done _

theorem extensional_throw (e : ε) : (throw e : Attempt ε α).Extensional h :=
  Procedure.extensional_done _

theorem extensional_ofOutcome (outcome : Except ε α) : (ofOutcome outcome).Extensional h :=
  Procedure.extensional_done _

theorem extensional_lift {p : Procedure α} (hp : p.Extensional h) :
    (monadLift p : Attempt ε α).Extensional h :=
  hp.bind (Procedure.extensional_done _)

theorem Matches.symm (hx : x.Matches h h') : x.Matches h' h :=
  Procedure.Matches.symm hx

theorem Matches.of_eq {y : Attempt ε α} (hy : y.Matches h h') (hon : x.on h = y.on h)
    (hon' : x.on h' = y.on h') : x.Matches h h' := by
  show (x.on h').1 = (x.on h).1 ∧ (x.on h).2.Alike (x.on h').2
  rw [hon, hon']
  exact hy

theorem Matches.bind {f : α → Attempt ε β} (hx : x.Matches h h')
    (hf : ∀ a, (x.on h).1 = .ok a → (f a).Extensional (x.on h).2) : (x >>= f).Matches h h' := by
  apply Procedure.Matches.bind hx
  show Procedure.Extensional (match (x.on h).1 with
    | .ok a => (f a).run
    | .error e => Procedure.done (.error e)) (x.on h).2
  cases hresult : (x.on h).1 with
  | ok a => exact hf a hresult
  | error e => exact Procedure.extensional_done _

theorem Matches.rephrase (hx : x.Matches h h') (tell : ε → ε') :
    (x.rephrase tell).Matches h h' :=
  Procedure.Matches.bind hx (Procedure.extensional_done _)

theorem Extensional.bind {f : α → Attempt ε β} (hx : x.Extensional h)
    (hf : ∀ a, (x.on h).1 = .ok a → (f a).Extensional (x.on h).2) : (x >>= f).Extensional h :=
  fun h' halike => Matches.bind (hx h' halike) hf

theorem Extensional.rephrase (hx : x.Extensional h) (tell : ε → ε') :
    (x.rephrase tell).Extensional h :=
  fun h' halike => Matches.rephrase (hx h' halike) tell

theorem Extensional.outcome (hx : x.Extensional h) :
    (x.outcome : Attempt ε' (Except ε α)).Extensional h :=
  Procedure.Extensional.bind hx (Procedure.extensional_done _)

theorem Extensional.followedBy {last : Procedure Unit} (hx : x.Extensional h)
    (hlast : last.Extensional (x.on h).2) : (x.followedBy last).Extensional h :=
  Procedure.Extensional.bind hx (hlast.bind (Procedure.extensional_done _))

/-! ### Actions -/

theorem extensional_of_question {x : Attempt ε α} (answer : FileTree → Place → Except ε α)
    (hx : ∀ h, x.on h = (answer h.tree h.directory, h))
    (hanswer : ∀ t', AgreeOn (fun _ => True) h.tree t' →
      answer t' h.directory = answer h.tree h.directory) : x.Extensional h := by
  intro h' halike
  show (x.on h').1 = (x.on h).1 ∧ (x.on h).2.Alike (x.on h').2
  rw [hx, hx, halike.directory]
  exact ⟨hanswer h'.tree (halike.agreeOn _), halike⟩

theorem extensional_isPresent : (isPresent p).Extensional h := by
  apply extensional_of_question fun t directory => (t.exists? directory p).mapError (⟨·, p⟩)
  · intro h
    rfl
  · intro t' hagree
    rw [exists?_agree (hagree.mono fun _ _ => trivial)]

theorem extensional_isDirectory :
    (monadLift (Procedure.ask (.isDirectory p)) : Attempt ε Bool).Extensional h := by
  apply extensional_of_question fun t directory => .ok (t.isDirectory directory p)
  · intro h
    rfl
  · intro t' hagree
    rw [isDirectory_agree (hagree.mono fun _ _ => trivial)]

theorem extensional_read : (read p).Extensional h := by
  apply extensional_of_question fun t directory => (t.readFile directory p).mapError (⟨·, p⟩)
  · intro h
    rfl
  · intro t' hagree
    rw [readFile_agree (hagree.mono fun _ _ => trivial)]

theorem extensional_of_attempt {x : Attempt FileError Unit}
    (change : FileTree → Place → Except FileCause FileTree)
    (hx : ∀ h, x.on h = h.attempt p (change h.tree h.directory))
    (hchange : ∀ t', AgreeOn (fun _ => True) h.tree t' → ∃ writes,
      SameChange writes h.tree t' (change h.tree h.directory) (change t' h.directory)) :
    x.Extensional h := by
  intro h' halike
  obtain ⟨writes, hsame⟩ := hchange h'.tree (halike.agreeOn _)
  have hafter := halike.attempt hsame p
  rw [← hx, ← halike.directory, ← hx] at hafter
  exact hafter

theorem extensional_makeDirectory : (makeDirectory p).Extensional h :=
  extensional_of_attempt (·.makeDirectory · p) (fun _ => rfl) fun _ hagree =>
    ⟨_, makeDirectory_agree (hagree.mono fun _ _ => trivial)⟩

theorem extensional_write (content : Bytes) : (write p content).Extensional h :=
  extensional_of_attempt (·.writeFile · p content) (fun _ => rfl) fun _ hagree =>
    ⟨_, modifyFile_agree _ (hagree.mono fun _ _ => trivial)⟩

theorem extensional_append (content : Bytes) : (append p content).Extensional h :=
  extensional_of_attempt (·.appendFile · p content) (fun _ => rfl) fun _ hagree =>
    ⟨_, modifyFile_agree _ (hagree.mono fun _ _ => trivial)⟩

theorem extensional_removeFile : (removeFile p).Extensional h :=
  extensional_of_attempt (·.removeFile · p) (fun _ => rfl) fun _ hagree =>
    ⟨_, removeFile_agree (hagree.mono fun _ _ => trivial)⟩

theorem extensional_move (hplain : ∀ r, h.tree.find false h.directory p ≠ .ok (r, .directory)) :
    (move p q).Extensional h :=
  extensional_of_attempt (·.rename · p q) (fun _ => rfl) fun _ hagree =>
    ⟨_, rename_agree hplain (hagree.mono fun _ _ => trivial) (hagree.mono fun _ _ => trivial)⟩

theorem extensional_removeTree : (removeTree p).Extensional h := by
  intro h' halike
  obtain ⟨hresult, htree⟩ := removeTree_same h.directory p (halike.agreeOn (fun _ => True))
  show ((removeTree p).on h').1 = ((removeTree p).on h).1 ∧
    ((removeTree p).on h).2.Alike ((removeTree p).on h').2
  rw [on_removeTree, on_removeTree, halike.directory, hresult]
  exact ⟨rfl, halike.directory, fun q => htree q trivial⟩

end Attempt

/-! ### Sources -/

namespace Sources

variable {h h' : Host} {p : Path}

theorem read_agree (hdirectory : h'.directory = h.directory)
    (hlook : AgreeOnLinks (· ∈ (h.tree.look h.directory p).2) h.tree h'.tree)
    (hend : ∀ q, h.tree.resolveEnd? h.directory p = some q →
      AgreeOn (· ∈ h.tree.wayTo true [] q) h.tree h'.tree) :
    ((read p).on h').1 = ((read p).on h).1 := by
  have hresolve := resolve_agree hlook hend
  have hresolve' : ∀ h, (resolve p).on h = (h.tree.resolve h.directory p, h) := fun _ => rfl
  rw [read, Attempt.on_bind, Attempt.on_bind, Attempt.on_rephrase, Attempt.on_rephrase, hresolve',
    hresolve', hdirectory, hresolve]
  cases hresult : h.tree.resolve h.directory p with
  | error e => rfl
  | ok q =>
      obtain ⟨hq, habsolute⟩ := resolveEnd?_of_resolve hresult
      have hread : h'.tree.readFile h'.directory q = h.tree.readFile h.directory q := by
        rw [hdirectory]
        apply readFile_agree
        have hstart : h.tree.wayTo true h.directory q = h.tree.wayTo true [] q := by
          rw [wayTo, wayTo, startOf, startOf, habsolute]
          rfl
        rw [hstart]
        exact hend q hq
      show (Attempt.on (_ >>= _) h').1 = (Attempt.on (_ >>= _) h).1
      rw [Attempt.on_bind, Attempt.on_bind, Attempt.on_rephrase, Attempt.on_rephrase,
        Attempt.on_read, Attempt.on_read, hread]
      cases h.tree.readFile h.directory q with
      | error cause => rfl
      | ok content => rfl

end Sources

/-! ### The steps of a build -/

namespace Directories

variable {h : Host}

theorem extensional_accept (fine : Bool) (p : Path) {made : Attempt FileError Unit}
    (hmade : made.Extensional h) : (accept fine p made).Extensional h := by
  apply hmade.outcome.bind
  intro result _
  cases result with
  | ok u => exact Attempt.extensional_pure _
  | error e =>
      cases fine with
      | false => exact Attempt.extensional_throw _
      | true =>
          apply Attempt.extensional_isDirectory.bind
          intro isDirectory _
          cases isDirectory with
          | true => exact Attempt.extensional_pure _
          | false => exact Attempt.extensional_throw _

theorem extensional_makeUp (anchor : Anchor) (fine : Bool) (names : List Text) :
    (makeUp anchor fine names).Extensional h := by
  induction names generalizing fine h with
  | nil => exact extensional_accept fine _ Attempt.extensional_makeDirectory
  | cons name above ih =>
      apply Attempt.extensional_makeDirectory.outcome.bind
      intro result _
      have hresult : ∀ h, (accept fine ⟨anchor, (name :: above).reverse⟩ (.ofOutcome result)).Extensional h :=
        fun h => extensional_accept fine _ (Attempt.extensional_ofOutcome _)
      have hmissing : ∀ h, (makeUp anchor true above >>= fun _ =>
          accept fine ⟨anchor, (name :: above).reverse⟩
            (.makeDirectory ⟨anchor, (name :: above).reverse⟩)).Extensional h :=
        fun h => (ih true).bind fun _ _ => extensional_accept fine _ Attempt.extensional_makeDirectory
      cases result with
      | ok u => exact hresult _
      | error e =>
          obtain ⟨cause, q⟩ := e
          cases cause with
          | missing => exact hmissing _
          | _ => exact hresult _

end Directories

namespace Workspace

variable {h : Host}

theorem extensional_clear (w : Workspace) : w.clear.Extensional h := by
  apply Attempt.extensional_isPresent.bind
  intro present _
  cases present with
  | true => exact Attempt.extensional_removeTree
  | false => exact Attempt.extensional_pure _

theorem extensional_enter (w : Workspace) : w.enter.Extensional h := by
  have hmade := (extensional_clear w (h := h)).bind fun _ _ =>
    Directories.extensional_makeUp w.path.anchor false w.path.names.reverse
  apply (hmade.rephrase _).bind
  intro _ _
  exact Attempt.extensional_lift (Procedure.extensional_log _ _ _ _)

theorem extensional_remove (w : Workspace) : w.remove.Extensional h := by
  apply Procedure.Extensional.bind (extensional_clear w)
  cases (w.clear.run.run h).1 with
  | ok u => exact Procedure.extensional_done _
  | error e =>
      exact Procedure.Extensional.bind (Procedure.extensional_log _ _ _ _)
        (Procedure.extensional_done _)

theorem extensional_write (w : Workspace) (binary : Bytes) (symbols : Option Bytes) :
    (w.write binary symbols).Extensional h := by
  apply Attempt.Extensional.rephrase
  apply (Attempt.extensional_write _).bind
  intro _ _
  cases symbols with
  | none => exact Attempt.extensional_pure _
  | some symbols =>
      apply (Attempt.extensional_write _).bind
      intro _ _
      exact Attempt.extensional_pure _

end Workspace

namespace Publication

variable {h h' : Host} {source temporary target : Path}

theorem extensional_appendAll (chunks : List Bytes) (p : Path) :
    (appendAll p chunks).Extensional h := by
  induction chunks generalizing h with
  | nil => exact Attempt.extensional_pure _
  | cons chunk chunks ih =>
      apply (Attempt.extensional_append _).bind
      intro _ _
      exact ih

def Filed (h : Host) (p : Path) : Prop :=
  ∃ q n, h.tree.find true h.directory p = .ok (q, n) ∧ n ≠ .directory

theorem filed_of_write {content : Bytes}
    (hon : (Attempt.write temporary content).on h = (.ok (), h')) : Filed h' temporary := by
  obtain ⟨tree, hwrite, rfl⟩ := Attempt.on_write_eq_ok_iff.mp hon
  exact find_of_modifyFile hwrite

theorem filed_of_appendAll {chunks : List Bytes} (hfiled : Filed h temporary)
    (hon : (appendAll temporary chunks).on h = (.ok (), h')) : Filed h' temporary := by
  induction chunks generalizing h with
  | nil =>
      obtain ⟨-, rfl⟩ := Prod.mk.inj hon
      exact hfiled
  | cons chunk chunks ih =>
      obtain ⟨_, between, happend, hrest⟩ := Attempt.on_bind_eq_ok_iff.mp hon
      obtain ⟨tree, hchange, rfl⟩ := Attempt.on_append_eq_ok_iff.mp happend
      have hmore : Filed (h.withTree tree) temporary := find_of_modifyFile hchange
      exact ih hmore hrest

theorem extensional_requireAskable (p : Path) : (requireAskable p).Extensional h := by
  rw [requireAskable]
  split
  · exact Attempt.extensional_throw _
  · exact Attempt.extensional_pure _

theorem extensional_copyThrough (chunking : Chunking) :
    (copyThrough chunking source temporary target).Extensional h := by
  apply (extensional_requireAskable source).bind
  intro _ _
  apply (extensional_requireAskable temporary).bind
  intro _ _
  apply Attempt.extensional_read.bind
  intro content _
  apply (Attempt.extensional_write _).bind
  intro _ hwrite
  apply (extensional_appendAll _ _).bind
  intro _ happend
  obtain ⟨q, n, hfind, hn⟩ :=
    filed_of_appendAll (filed_of_write (Attempt.on_eq hwrite)) (Attempt.on_eq happend)
  exact Attempt.extensional_move (not_directory_of_find hfind hn)

theorem extensional_discard : (discard temporary).Extensional h := by
  apply Attempt.extensional_isPresent.bind
  intro present _
  cases present with
  | true => exact Attempt.extensional_removeFile
  | false => exact Attempt.extensional_pure _

theorem extensional_replace (chunking : Chunking) (name : Text) :
    (replace chunking name source target).Extensional h := by
  apply (Directories.extensional_makeUp _ _ _).bind
  intro _ _
  apply (extensional_copyThrough chunking).outcome.bind
  intro copied _
  apply extensional_discard.bind
  intro _ _
  exact Attempt.extensional_ofOutcome copied

theorem extensional_removeIfPresent (p : Path) : (removeIfPresent p).Extensional h := by
  apply Attempt.extensional_removeFile.outcome.bind
  intro result _
  cases result with
  | ok u => exact Attempt.extensional_ofOutcome _
  | error e =>
      obtain ⟨cause, q⟩ := e
      cases cause with
      | missing => exact Attempt.extensional_pure _
      | _ => exact Attempt.extensional_ofOutcome _

theorem extensional_withdraw (p : Path) : (withdraw p).Extensional h := by
  have hremove : Procedure.Extensional (.ask (.removeFile p)) h := Attempt.extensional_removeFile (p := p)
  apply hremove.bind
  cases ((Procedure.ask (.removeFile p)).run h).1 with
  | ok u => exact Procedure.extensional_done _
  | error e => exact Procedure.extensional_log _ _ _ _

theorem extensional_publishSymbols (chunking : Chunking) (name : Text) (symbols : Option Path) :
    (publishSymbols chunking name target symbols).Extensional h := by
  cases symbols with
  | some symbols =>
      apply (extensional_replace chunking name).bind
      intro _ _
      exact Attempt.extensional_pure _
  | none =>
      apply (extensional_removeIfPresent target).bind
      intro _ _
      exact Attempt.extensional_pure _

theorem extensional_publish (chunking : Chunking) (names : CopyNames) (binary output : Path)
    (symbols : Option Path) : (publish chunking names binary output symbols).Extensional h := by
  rw [publish]
  split
  · exact Attempt.extensional_throw _
  · apply Attempt.Extensional.rephrase
    apply (extensional_replace chunking names.binary).bind
    intro _ _
    apply (extensional_publishSymbols chunking names.symbols symbols).outcome.bind
    intro result _
    cases result with
    | ok published => exact Attempt.extensional_pure _
    | error e =>
        dsimp only
        split
        · exact Attempt.extensional_throw e
        · apply (Attempt.extensional_lift (extensional_withdraw output)).bind
          intro _ _
          exact Attempt.extensional_throw e

end Publication

/-- What the back end answers and what it makes of the files is decided by the request and by what
the file system holds. -/
def BackEnd.Extensional (backEnd : BackEnd) : Prop :=
  ∀ request h, (backEnd request).Extensional h

namespace Build

variable {α : Type} {h : Host}

theorem extensional_logEach {logOne : α → Procedure Unit}
    (hone : ∀ a h, (logOne a).Extensional h) (as : List α) : (logEach logOne as).Extensional h := by
  induction as generalizing h with
  | nil => exact Procedure.extensional_done _
  | cons a as ih => exact (hone a h).bind ih

theorem extensional_merge (hoist : Bool) (primary : Fragment) (imported : List Fragment) :
    (merge hoist primary imported).Extensional h := by
  apply (Attempt.extensional_ofOutcome _).bind
  intro imports _
  apply (Attempt.extensional_lift
    (extensional_logEach (fun _ _ => Procedure.extensional_log _ _ _ _) _)).bind
  intro _ _
  apply (Attempt.extensional_ofOutcome _).bind
  intro document _
  apply (Attempt.extensional_lift (Procedure.extensional_log _ _ _ _)).bind
  intro _ _
  exact Attempt.extensional_pure _

theorem extensional_resolveReferences (settings : Settings) (references : List Path) :
    (resolveReferences settings references).Extensional h := by
  apply (extensional_logEach (fun _ _ => Procedure.extensional_log _ _ _ _) _).bind
  apply (Procedure.extensional_log _ _ _ _).bind
  exact Procedure.extensional_done _

theorem extensional_emit {backEnd : BackEnd} (hbackEnd : backEnd.Extensional)
    (request : EmitRequest) : (emit backEnd request).Extensional h := by
  have hclock : ∀ h, (Procedure.ask .clock).Extensional h := fun _ _ halike => ⟨rfl, halike⟩
  apply (Attempt.extensional_lift (hclock _)).bind
  intro _ _
  apply (hbackEnd request _).outcome.bind
  intro result _
  apply (Attempt.extensional_lift (hclock _)).bind
  intro _ _
  apply (Attempt.extensional_lift (Procedure.extensional_log _ _ _ _)).bind
  intro _ _
  exact Attempt.extensional_ofOutcome _

theorem extensional_conclude (options : BuildOptions) (names : CopyNames) (w : Workspace)
    (origin : Origin) (emitted : EmitResult) :
    (conclude options names w origin emitted).Extensional h := by
  rw [conclude]
  split
  · split
    · exact Attempt.extensional_pure _
    · apply ((Workspace.extensional_write w _ _).rephrase _).bind
      intro paths _
      apply ((Publication.extensional_publish _ _ _ _ _).rephrase _).bind
      intro outputs _
      exact Attempt.extensional_pure _
  · exact Attempt.extensional_pure _

theorem extensional_runIn {backEnd : BackEnd} (hbackEnd : backEnd.Extensional)
    (settings : Settings) (options : BuildOptions) (names : CopyNames) (w : Workspace)
    (primary : Fragment) (imported : List Fragment) :
    (runIn backEnd settings options names w primary imported).Extensional h := by
  apply (extensional_merge _ _ _).bind
  intro document _
  apply ((Attempt.extensional_write _).rephrase _).bind
  intro _ _
  apply (Attempt.extensional_lift (extensional_resolveReferences _ _)).bind
  intro references _
  apply (extensional_emit hbackEnd _).bind
  intro emitted _
  exact extensional_conclude _ _ _ _ _

end Build

end ScriptWeave
