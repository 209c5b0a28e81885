import ScriptWeave.Build
import ScriptWeave.CommandLine.Invocation
import ScriptWeave.CommandLine.Report
import ScriptWeave.Compiler
import ScriptWeave.Settings

namespace ScriptWeave.CommandLine

inductive Fault where
  | noHome
  | build (fault : BuildFault)
  deriving DecidableEq, Repr

def Fault.message : Fault → Text
  | .noHome => Settings.Fault.noHome.message
  | .build fault => fault.message

def override (i : Invocation) (s : Settings) : Except Settings.Fault Settings := do
  let compiler ← match i.compiler with
    | some (c :: rest) => (CommandWords.split (c :: rest)).mapError .words
    | _ => .ok s.compiler
  return { s with
    cacheRoot := i.cacheDirectory.getD s.cacheRoot
    compiler
    hoist := i.hoist.getD s.hoist }

def settings (e : Environment) (i : Invocation) : Attempt Settings.Fault Settings := do
  let loaded ← match i.config with
    | some p => Settings.load e p
    | none => pure (.default e)
  Attempt.ofOutcome (override i loaded)

def invalidSettings (fault : Settings.Fault) : Diagnostic where
  message := "invalid settings: " ++ fault.message
  code := some "MERGEC0006"

def ofResult : BuildResult → Report
  | .built _ _ warnings => ⟨0, warnings⟩
  | .failed diagnostics => ⟨1, diagnostics⟩

def build (e : Environment) (launch : Launcher) (names : BuildNames) (i : Invocation)
    (s : Settings) : Attempt BuildFault Report := do
  let sources ← (Sources.select (i.source :: i.imported)).rephrase .unresolved
  let options : BuildOptions := ⟨i.output, i.debug, i.references⟩
  let compiler : Compiler := { command := s.compiler }
  match ← (Build.run (compiler.emit e.searchPath launch) s options names sources).outcome with
  | .ok result => return ofResult result
  | .error (.tool fault) => return ⟨2, [fault.toDiagnostic]⟩
  | .error fault => throw fault

def run (e : Environment) (launch : Launcher) (names : BuildNames) (i : Invocation) :
    Attempt Fault Report := do
  match ← (settings e i).outcome with
  | .error .noHome => throw .noHome
  | .error fault => return ⟨2, [invalidSettings fault]⟩
  | .ok s => (build e launch names i s).rephrase .build

end ScriptWeave.CommandLine
