import ScriptWeave.Proofs.Failure

namespace ScriptWeave

namespace Attempt

variable {ε α β : Type} {x : Attempt ε α} {f g : α → Attempt ε β} {h : Host}

theorem result_bind_congr (hfg : ∀ a h, ((f a).on h).1 = ((g a).on h).1) :
    ((x >>= f).on h).1 = ((x >>= g).on h).1 := by
  rw [on_bind, on_bind]
  split
  · exact hfg _ _
  · rfl

end Attempt

namespace Build

/-- What a build asks of its back end, and what it needs to make use of the answer. -/
structure Question where
  workspace : Workspace
  request : EmitRequest
  origin : Origin

variable {backEnd : BackEnd} {settings : Settings} {options : BuildOptions} {names : BuildNames}
variable {sources : List Path} {h ready : Host} {q : Question} {emitted : EmitResult}

def question (settings : Settings) (options : BuildOptions) (w : Workspace) (primary : Fragment)
    (imported : List Fragment) : Attempt BuildFault Question := do
  let document ← merge settings.hoist primary imported
  let documentPath := w.path.join (Path.ofText primary.name)
  (Attempt.write documentPath (Text.encode document.text)).rephrase fun e =>
    .ofArtifact (.document documentPath e)
  let references ← resolveReferences settings options.references
  return {
    workspace := w
    request := {
      text := document.text
      path := documentPath
      project := w.project
      references
      debug := options.debug
      scratch := some (w.path.join "obj") }
    origin :=
      ⟨document.ranges, documentPath.toText, (primary :: imported).map Fragment.path⟩ }

def answer (backEnd : BackEnd) (options : BuildOptions) (names : CopyNames) (q : Question) :
    Attempt BuildFault BuildResult := do
  let emitted ← emit backEnd q.request
  conclude options names q.workspace q.origin emitted

theorem runIn_eq (w : Workspace) (copies : CopyNames) (primary : Fragment)
    (imported : List Fragment) :
    runIn backEnd settings options copies w primary imported =
      question settings options w primary imported >>= answer backEnd options copies := by
  simp only [runIn, question, answer, bind_assoc, pure_bind]

/-- A build up to its back end. -/
def prepare (settings : Settings) (options : BuildOptions) (session : Text) (sources : List Path) :
    Attempt BuildFault Question := do
  match ← (Sources.readAll sources).rephrase .ofSources with
  | [] => throw .noInput
  | primary :: imported =>
      (ensureCacheRoot settings.cacheRoot).rephrase .ofArtifact
      let workspace : Workspace := ⟨settings.cacheRoot, session, projectOf primary⟩
      workspace.enter.rephrase .ofArtifact
      question settings options workspace primary imported

theorem result_run :
    ((run backEnd settings options names sources).on h).1 =
      ((prepare settings options names.session sources >>=
        answer backEnd options names.copies).on h).1 := by
  rw [run, prepare, bind_assoc]
  refine Attempt.result_bind_congr fun fragments h => ?_
  cases fragments with
  | nil => rfl
  | cons primary imported =>
      dsimp only
      rw [bind_assoc]
      refine Attempt.result_bind_congr fun _ h => ?_
      rw [bind_assoc]
      refine Attempt.result_bind_congr fun _ h => ?_
      rw [Attempt.on_followedBy, runIn_eq]

theorem result_emit (hemitted : ((backEnd q.request).on h).1 = .ok emitted) :
    ∃ after, (emit backEnd q.request).on h = (.ok emitted, after) := by
  obtain ⟨log, hlog⟩ := on_emit backEnd q.request h
  rw [hemitted] at hlog
  exact ⟨_, hlog⟩

theorem run_of_prepare (names : BuildNames)
    (hprepare : (prepare settings options names.session sources).on h = (.ok q, ready))
    (hemitted : ((backEnd q.request).on ready).1 = .ok emitted) :
    ∃ after, ((run backEnd settings options names sources).on h).1 =
      ((conclude options names.copies q.workspace q.origin emitted).on after).1 := by
  obtain ⟨after, hemit⟩ := result_emit hemitted
  refine ⟨after, ?_⟩
  rw [result_run, Attempt.on_bind_of_ok hprepare, answer, Attempt.on_bind_of_ok hemit]

theorem answered_of_run {result : BuildResult}
    (hon : ((run backEnd settings options names sources).on h).1 = .ok result) :
    ∃ q ready emitted, (prepare settings options names.session sources).on h = (.ok q, ready) ∧
      ((backEnd q.request).on ready).1 = .ok emitted := by
  rw [result_run] at hon
  obtain ⟨q, ready, hprepare, hanswer⟩ := Attempt.on_bind_eq_ok_iff.mp (Attempt.on_eq hon)
  obtain ⟨emitted, after, hemit, -⟩ := Attempt.on_bind_eq_ok_iff.mp hanswer
  obtain ⟨log, hlog⟩ := on_emit backEnd q.request ready
  rw [hlog, Prod.mk.injEq, Attempt.mapError_eq_ok_iff] at hemit
  exact ⟨q, ready, emitted, hprepare, hemit.1⟩

theorem failures_of_mem {origin : Origin} (hfailure : ∃ d ∈ emitted.diagnostics, d.isFailure = true) :
    failures origin emitted = (emitted.diagnostics.filter Diagnostic.isFailure).map origin.trace := by
  obtain ⟨d, hd, hfails⟩ := hfailure
  rw [failures]
  split
  · rename_i hnone
    rw [List.map_eq_nil_iff, List.filter_eq_nil_iff] at hnone
    exact absurd hfails (hnone d hd)
  · rfl

theorem conclude_of_unemitted {copies : CopyNames} {w : Workspace} {origin : Origin}
    (hmissing : emitted.success = false ∨ emitted.binary = none) :
    conclude options copies w origin emitted = pure (.failed (failures origin emitted)) := by
  rw [conclude]
  split
  · rename_i hsuccess hbinary
    rw [hsuccess, hbinary] at hmissing
    exact absurd hmissing (by simp)
  · rfl

theorem conclude_of_symbolless {copies : CopyNames} {w : Workspace} {origin : Origin}
    (hsuccess : emitted.success = true) (hbinary : emitted.binary ≠ none)
    (hdebug : options.debug = true) (hsymbols : emitted.symbols = none) :
    conclude options copies w origin emitted = pure (.failed [missingSymbols emitted.log]) := by
  obtain ⟨binary, hbinary⟩ := Option.ne_none_iff_exists'.mp hbinary
  simp [conclude, hsuccess, hbinary, hdebug, hsymbols]

/-- Failures that a back end tells are never passed over when there is no binary: the build fails,
and it reports all of them. With a binary that lacks the symbols asked for it fails too, but what it
reports is that. Every build that ends in a result has come to its back end in this way. -/
theorem reports_told_failures (backEnd : BackEnd) (settings : Settings) (options : BuildOptions)
    (names : BuildNames) (sources : List Path) (h : Host) :
    (∀ result, ((run backEnd settings options names sources).on h).1 = .ok result →
      ∃ q ready emitted, (prepare settings options names.session sources).on h = (.ok q, ready) ∧
        ((backEnd q.request).on ready).1 = .ok emitted) ∧
    ∀ q ready emitted, (prepare settings options names.session sources).on h = (.ok q, ready) →
      ((backEnd q.request).on ready).1 = .ok emitted →
      (∃ d ∈ emitted.diagnostics, d.isFailure = true) →
      (emitted.success = false ∨ emitted.binary = none →
        ((run backEnd settings options names sources).on h).1 =
          .ok (.failed ((emitted.diagnostics.filter Diagnostic.isFailure).map q.origin.trace))) ∧
      (emitted.success = true → emitted.binary ≠ none → options.debug = true →
        emitted.symbols = none →
        ((run backEnd settings options names sources).on h).1 =
          .ok (.failed [missingSymbols emitted.log])) := by
  refine ⟨fun result => answered_of_run, ?_⟩
  intro q ready emitted hprepare hemitted hfailure
  obtain ⟨after, hresult⟩ := run_of_prepare names hprepare hemitted
  refine ⟨fun hmissing => ?_, fun hsuccess hbinary hdebug hsymbols => ?_⟩
  · rw [hresult, conclude_of_unemitted hmissing, failures_of_mem hfailure, Attempt.on_pure]
  · rw [hresult, conclude_of_symbolless hsuccess hbinary hdebug hsymbols, Attempt.on_pure]

/-- Two of three diagnostics are failures, one of them a warning that counts as an error. -/
theorem reports_told_failures_promoted :
    let h : Host := { tree := ⟨[(["a.csx".toList], .file (Text.encode "x") false)]⟩ }
    let error : Diagnostic := { message := "e", span := { line := some 2, column := some 1 } }
    let promoted : Diagnostic := { message := "p", severity := .warning, promoted := true }
    let backEnd : BackEnd := fun _ => pure {
      success := false
      diagnostics := [error, { message := "w", severity := .warning }, promoted] }
    ∃ q ready, (prepare { cacheRoot := "/c" } { output := "/a.dll" } "run" ["/a.csx"]).on h =
        (.ok q, ready) ∧
      ((run backEnd { cacheRoot := "/c" } { output := "/a.dll" } ⟨"run", ⟨"t", "u"⟩⟩ ["/a.csx"]).on
        h).1 = .ok (.failed [q.origin.trace error, q.origin.trace promoted]) ∧
      (q.origin.trace error).span = ⟨some "/a.csx", some 1, some 1⟩ := by
  intro h error promoted backEnd
  have hresult : ((run backEnd { cacheRoot := "/c" } { output := "/a.dll" } ⟨"run", ⟨"t", "u"⟩⟩
      ["/a.csx"]).on h).1 =
        .ok (.failed [{ error with span := ⟨some "/a.csx", some 1, some 1⟩ }, promoted]) := by
    decide +kernel
  obtain ⟨hanswered, hreports⟩ := reports_told_failures backEnd { cacheRoot := "/c" }
    { output := "/a.dll" } ⟨"run", ⟨"t", "u"⟩⟩ ["/a.csx"] h
  obtain ⟨q, ready, emitted, hprepare, hemitted⟩ := hanswered _ hresult
  obtain rfl := Except.ok.inj hemitted
  obtain ⟨hfailed, -⟩ := hreports q ready _ hprepare hemitted ⟨error, List.mem_cons_self, rfl⟩
  have htold := hfailed (.inl rfl)
  refine ⟨q, ready, hprepare, htold, ?_⟩
  rw [htold] at hresult
  have hfirst := (List.cons.inj (BuildResult.failed.inj (Except.ok.inj hresult))).1
  exact congrArg Diagnostic.span hfirst

/-- A failure is told and not reported, because there are no symbols for a binary that came with it. -/
theorem passes_over_failure_without_symbols :
    let h : Host := { tree := ⟨[(["a.csx".toList], .file (Text.encode "x") false)]⟩ }
    let told : Diagnostic := { message := "e", code := some "CS1" }
    let backEnd : BackEnd := fun _ =>
      pure { success := true, binary := some (Text.encode "MZ"), diagnostics := [told] }
    ∃ ds, told.isFailure = true ∧ (∀ origin : Origin, origin.trace told ∉ ds) ∧
      ((run backEnd { cacheRoot := "/c" } { output := "/a.dll", debug := true }
        ⟨"run", ⟨"t", "u"⟩⟩ ["/a.csx"]).on h).1 = .ok (.failed ds) := by
  intro h told backEnd
  refine ⟨[missingSymbols []], rfl, fun origin htrace => ?_, by decide +kernel⟩
  have hcode : some "CS1".toList = some "MERGEC0007".toList :=
    congrArg Diagnostic.code (List.mem_singleton.mp htrace)
  exact absurd hcode (by decide)

end Build

end ScriptWeave
