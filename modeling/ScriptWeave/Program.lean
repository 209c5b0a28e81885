import ScriptWeave.Compiler
import ScriptWeave.Settings
import ScriptWeave.Shell.Start

namespace ScriptWeave.Program

def argumentLimit : Nat := 131072

/-- The session that a program starts in: its input is empty, and both of its outputs are kept. -/
def sessionOf (environment : Environment) (directory : Path) : Shell.Session :=
  let values : List (Text × Text) := [("HOME", environment.home),
    ("PATH", Text.joinWith [':'] (environment.searchPath.map Path.toText))]
  { name := []
    directory
    store := values.map fun v => ⟨v.1, some (Shell.inward v.2), true, false⟩
    homes := environment.homes.map fun h => (Shell.inward h.1, Shell.inward h.2)
    descriptors := [(0, 0), (1, 1), (2, 2)]
    channels := [(0, .pipe [] []), (1, .pipe [] []), (2, .pipe [] [])] }

def written (s : Shell.Session) (descriptor : Nat) : Bytes :=
  ((s.channels.find? fun c => c.1 = descriptor).map fun c => Shell.toBytes c.2.content).getD []

/-- Runs a program to its end. It succeeds if its status is zero and nothing else ended it. -/
def run (environment : Environment) (directory : Path) (i : Shell.Invocation) :
    Procedure ProgramResult := do
  let (result, s) ← ((Shell.evaluate Shell.stepLimit (.program i)).run).run
    (sessionOf environment directory)
  let isOver := match result with
    | .error (.killed _) => false
    | .error .exhausted => false
    | _ => true
  return ⟨isOver && s.status = 0, written s 1, written s 2⟩

/-- Starts a program. A file that is neither a program nor a script that names one cannot be
executed. -/
def launch (environment : Environment) : Launcher := fun call => do
  let p := call.directory.join (Path.ofWritten call.executable)
  if (call.executable :: call.arguments).any (·.contains '\x00') then throw ⟨.nullCharacter, p⟩
  let arguments := call.arguments.map Shell.inward
  let i ← (Shell.Executable.find call.directory Shell.Executable.depthLimit
    (Shell.inward call.executable) (Shell.inward call.executable) arguments).rephrase (⟨·, p⟩)
  if arguments.any (argumentLimit ≤ ·.length) then throw ⟨.argumentsTooLong, p⟩
  Attempt.ofProcedure (Except.ok <$> run environment call.directory i)

end ScriptWeave.Program
