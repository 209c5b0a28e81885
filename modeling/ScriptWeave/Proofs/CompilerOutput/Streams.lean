import ScriptWeave.Compiler
import ScriptWeave.Proofs.Faults
import ScriptWeave.Proofs.FilledLines

/-!
Compiler output is read line by line. Only the lines that are not blank count, each without the
blanks around it, and so the diagnostics of two texts that are joined by a line feed are those of the
first followed by those of the second. What a compiler writes to its output and to its error output
is joined in this way before it is read, and nothing in either is lost.
-/

namespace ScriptWeave

open Text

namespace CompilerOutput

/-- The diagnostics of two texts, the first one's fault before the second one's. -/
def both (front back : Except NumberTooLong (List Diagnostic)) :
    Except NumberTooLong (List Diagnostic) := do
  return (← front) ++ (← back)

variable {front back : Except NumberTooLong (List Diagnostic)}

theorem nil_both : both (.ok []) back = back := by
  cases back <;> rfl

theorem both_eq_error_iff :
    (∃ fault, both front back = .error fault) ↔
      (∃ fault, front = .error fault) ∨ ∃ fault, back = .error fault := by
  cases front <;> cases back <;> simp [both, bind, Except.bind, pure, Except.pure]

theorem readLine_trim (raw : Text) : readLine (trim raw) = readLine raw := by
  simp only [readLine, trim_trim]

theorem readLine_of_blank {raw : Text} (h : trim raw = []) : readLine raw = .ok none := by
  rw [← readLine_trim, h]
  rfl

theorem readLines_cons (line : Text) (lines : List Text) :
    readLines (line :: lines) = both ((readLine line).map (·.toList)) (readLines lines) := by
  rw [readLines]
  cases readLine line with
  | error fault => rfl
  | ok found => cases readLines lines <;> rfl

theorem both_assoc (first second third : Except NumberTooLong (List Diagnostic)) :
    both (both first second) third = both first (both second third) := by
  cases first <;> cases second <;> cases third <;>
    simp [both, bind, Except.bind, pure, Except.pure]

theorem readLines_append (lines more : List Text) :
    readLines (lines ++ more) = both (readLines lines) (readLines more) := by
  induction lines with
  | nil => exact nil_both.symm
  | cons line lines ih => rw [List.cons_append, readLines_cons, readLines_cons, ih, both_assoc]

theorem readLines_filled (lines : List Text) : readLines (filled lines) = readLines lines := by
  induction lines with
  | nil => rfl
  | cons line lines ih =>
      rw [filled_cons, readLines_cons]
      split
      · rename_i hblank
        rw [readLine_of_blank hblank, ih]
        exact nil_both.symm
      · rw [readLines_cons, readLine_trim, ih]

theorem read_eq (t : Text) : read t = readLines (filledLines t) := by
  rw [read, ← readLines_filled, filled_outputLines]

theorem read_append (a b : Text) : read (a ++ '\n' :: b) = both (read a) (read b) := by
  have hfeed : isOutputBreak '\n' = true := rfl
  rw [read_eq, filledLines_append_break hfeed, readLines_append, ← read_eq, ← read_eq]

theorem read_trim (t : Text) : read (trim t) = read t := by
  rw [read_eq, filledLines_trim, ← read_eq]

end CompilerOutput

namespace Compiler

open CompilerOutput Attempt

def streams (result : ProgramResult) : Except DecodeFault (Text × Text) := do
  return (← outputText result.output, ← outputText result.errorOutput)

def joined (output errorOutput : Text) : Text :=
  joinWith ['\n'] ([trim output, trim errorOutput].filter (· != []))

theorem logOf_eq (result : ProgramResult) :
    logOf result = (streams result).map fun texts => joined texts.1 texts.2 := by
  rw [logOf, streams]
  cases outputText result.output with
  | error fault => rfl
  | ok output => cases outputText result.errorOutput <;> rfl

theorem read_joined (output errorOutput : Text) :
    read (joined output errorOutput) = both (read output) (read errorOutput) := by
  rw [read_eq, joined, filledLines_joinWith, List.flatMap_cons, List.flatMap_singleton,
    readLines_append, filledLines_trim, filledLines_trim, ← read_eq, ← read_eq]

/-- Starts the program, once its directory and its file are there, and waits for its end. -/
def started (c : Compiler) (searchPath : List Path) (launch : Launcher) (request : EmitRequest) :
    Attempt BackEndFault ProgramResult := do
  (Directories.ensure (scratchOf request)).rephrase .file
  let executable ← resolveExecutable searchPath c.command
  let call : ProgramCall :=
    ⟨executable, c.arguments request (outputPath request), scratchOf request⟩
  (launch call).rephrase BackEndFault.ofLaunch

def handedOn (request : EmitRequest) (diagnostics : List Diagnostic) (log : Text) (finished : Bool) :
    Attempt BackEndFault EmitResult :=
  if finished then (collect request diagnostics log).rephrase .file
  else return { success := false, diagnostics, log }

def concluded (request : EmitRequest) (result : ProgramResult) (diagnostics : List Diagnostic)
    (log : Text) : Attempt BackEndFault EmitResult :=
  if result.succeeded then
    (Attempt.isPresent (outputPath request)).rephrase .file >>= handedOn request diagnostics log
  else handedOn request diagnostics log false

/-- What follows when a program has come to its end. -/
def told (request : EmitRequest) (result : ProgramResult) : Attempt BackEndFault EmitResult := do
  let log ← ofOutcome ((logOf result).mapError .encoding)
  let diagnostics ← ofOutcome ((read log).mapError .number)
  concluded request result diagnostics log

theorem emit_eq (c : Compiler) (searchPath : List Path) (launch : Launcher) (request : EmitRequest) :
    c.emit searchPath launch request =
      c.started searchPath launch request >>= told request := by
  simp only [emit, started, bind_assoc, pure_bind]
  rfl

theorem told_of_undecoded {request : EmitRequest} {result : ProgramResult} {fault : DecodeFault}
    (hstreams : streams result = .error fault) (h : Host) :
    (told request result).on h = (.error (.encoding fault), h) := by
  rw [told, logOf_eq, hstreams, on_bind, on_ofOutcome]
  rfl

theorem told_of_streams {request : EmitRequest} {result : ProgramResult} {output errorOutput : Text}
    (hstreams : streams result = .ok (output, errorOutput)) :
    told request result = (do
      let diagnostics ← ofOutcome ((both (read output) (read errorOutput)).mapError .number)
      concluded request result diagnostics (joined output errorOutput)) := by
  rw [told, logOf_eq, hstreams, ← read_joined]
  rfl

section Conclusion

variable {request : EmitRequest} {diagnostics : List Diagnostic} {log : Text}

theorem yields_collect :
    (collect request diagnostics log).Yields (·.diagnostics = diagnostics) := by
  have hread : ∀ symbols, Yields (fun emitted : EmitResult => emitted.diagnostics = diagnostics) (do
      let binary ← Attempt.read (outputPath request)
      return { success := true, binary := some binary, symbols, diagnostics, log }) :=
    fun symbols => Yields.bind fun binary => yields_pure rfl
  unfold collect
  split
  · refine Yields.bind fun isThere => ?_
    split
    · exact Yields.bind hread
    · exact Yields.bind hread
  · exact Yields.bind hread

theorem yields_handedOn (finished : Bool) :
    (handedOn request diagnostics log finished).Yields (·.diagnostics = diagnostics) := by
  cases finished with
  | true => exact yields_collect.rephrase _
  | false => exact yields_pure rfl

theorem yields_concluded (result : ProgramResult) :
    (concluded request result diagnostics log).Yields (·.diagnostics = diagnostics) := by
  rw [concluded]
  split
  · exact Yields.bind yields_handedOn
  · exact yields_handedOn false

theorem faults_rephrase_file {α : Type} (x : Attempt FileError α) :
    (x.rephrase BackEndFault.file).Faults fun fault => ∃ error, fault = .file error := by
  have hany : x.Faults fun _ => True := fun _ _ _ => trivial
  exact hany.rephrase fun error _ => ⟨error, rfl⟩

theorem faults_concluded (result : ProgramResult) :
    (concluded request result diagnostics log).Faults fun fault =>
      result.succeeded = true ∧ ∃ error, fault = .file error := by
  rw [concluded]
  split
  · rename_i hsucceeded
    have hfiles := (faults_rephrase_file (Attempt.isPresent (outputPath request))).bind
      (f := handedOn request diagnostics log) fun finished => by
        cases finished with
        | true => exact faults_rephrase_file _
        | false => exact faults_pure _
    exact hfiles.mono fun fault hfault => ⟨hsucceeded, hfault⟩
  · exact faults_pure _

end Conclusion

/-- How the back end ends behind a program that has run. What the program wrote may be no text, or
hold a number that is too long; else the diagnostics are those of its output followed by those of its
error output, unless the program has succeeded and its files cannot be read. -/
inductive Reports (result : ProgramResult) : Except BackEndFault EmitResult → Prop
  | undecoded {fault : DecodeFault} (hstreams : streams result = .error fault) :
      Reports result (.error (.encoding fault))
  | refused {output errorOutput : Text} {fault : NumberTooLong}
      (hstreams : streams result = .ok (output, errorOutput))
      (hread : both (read output) (read errorOutput) = .error fault) :
      Reports result (.error (.number fault))
  | reported {output errorOutput : Text} {found more : List Diagnostic} {emitted : EmitResult}
      (hstreams : streams result = .ok (output, errorOutput)) (houtput : read output = .ok found)
      (herror : read errorOutput = .ok more) (hemitted : emitted.diagnostics = found ++ more) :
      Reports result (.ok emitted)
  | lost {output errorOutput : Text} {found more : List Diagnostic} {error : FileError}
      (hstreams : streams result = .ok (output, errorOutput)) (houtput : read output = .ok found)
      (herror : read errorOutput = .ok more) (hsucceeded : result.succeeded = true) :
      Reports result (.error (.file error))

theorem reports_told (request : EmitRequest) (result : ProgramResult) (h : Host) :
    Reports result ((told request result).on h).1 := by
  cases hstreams : streams result with
  | error fault =>
      rw [told_of_undecoded hstreams]
      exact .undecoded hstreams
  | ok texts =>
      obtain ⟨output, errorOutput⟩ := texts
      rw [told_of_streams hstreams, on_bind, on_ofOutcome]
      cases houtput : read output with
      | error fault => exact .refused hstreams (by rw [houtput]; rfl)
      | ok found =>
          cases herror : read errorOutput with
          | error fault => exact .refused hstreams (by rw [houtput, herror]; rfl)
          | ok more =>
              change Reports result ((concluded request result (found ++ more) _).on h).1
              cases hend : ((concluded request result (found ++ more) _).on h).1 with
              | ok emitted =>
                  exact .reported hstreams houtput herror (yields_concluded result _ _ hend)
              | error fault =>
                  obtain ⟨hsucceeded, error, rfl⟩ := faults_concluded result _ _ hend
                  exact .lost hstreams houtput herror hsucceeded

/-- Compiler output is read line by line, whatever its lines are broken by and whatever blanks are
around it. A back end ends in the fault with which it could not start its program, or reports of the
program what it wrote to its output and then what it wrote to its error output. -/
theorem reads_line_by_line :
    (∀ a b : Text, read (a ++ '\n' :: b) = both (read a) (read b)) ∧
    (∀ a b : Text, (∃ fault, read (a ++ '\n' :: b) = .error fault) ↔
      (∃ fault, read a = .error fault) ∨ ∃ fault, read b = .error fault) ∧
    (∀ t : Text, read (trim t) = read t) ∧
    ∀ (c : Compiler) (searchPath : List Path) (launch : Launcher) (request : EmitRequest) (h : Host),
      (∃ fault after, (c.started searchPath launch request).on h = (.error fault, after) ∧
        (c.emit searchPath launch request).on h = (.error fault, after)) ∨
      ∃ result between, (c.started searchPath launch request).on h = (.ok result, between) ∧
        Reports result ((c.emit searchPath launch request).on h).1 := by
  refine ⟨read_append, fun a b => ?_, read_trim, fun c searchPath launch request h => ?_⟩
  · rw [read_append, both_eq_error_iff]
  · rw [emit_eq, on_bind]
    cases hstarted : (c.started searchPath launch request).on h with
    | mk first between =>
        cases first with
        | error fault => exact .inl ⟨fault, between, rfl, rfl⟩
        | ok result => exact .inr ⟨result, between, rfl, reports_told request result between⟩

end Compiler

end ScriptWeave
