import ScriptWeave.BackEnd
import ScriptWeave.CompilerOutput
import ScriptWeave.Directories

namespace ScriptWeave

/-- A program to be started: its file, its arguments, and the directory that it runs in. The file
is looked for from that directory. -/
structure ProgramCall where
  executable : Text
  arguments : List Text
  directory : Path
  deriving DecidableEq, Repr

structure ProgramResult where
  succeeded : Bool
  output : Bytes := []
  errorOutput : Bytes := []
  deriving DecidableEq, Repr

abbrev Launcher := ProgramCall → Attempt FileError ProgramResult

/-- A compiler's command line: its program with leading arguments, and arguments that go in front
of the document's path. -/
structure Compiler where
  command : List Text := ["csc"]
  extraArguments : List Text := []
  deriving DecidableEq, Repr

namespace Compiler

def searchProgram (name : Text) : List Path → Procedure (Option Text)
  | [] => return none
  | directory :: directories => do
      let candidate := directory.toText ++ "/" ++ name
      if ← Procedure.ask (.isRunnable (Path.ofText candidate)) then return some candidate
      else searchProgram name directories

/-- The program's file. A name without directories is looked for on the search path. -/
def resolveExecutable (searchPath : List Path) : List Text → Attempt BackEndFault Text
  | [] => throw (.invocation .noCommand)
  | name :: _ => do
      if (Path.ofText name).isAbsolute then
        if ← (Attempt.isPresent (Path.ofText name)).rephrase .file then return name
        else throw (.invocation (.notFound name))
      else if '/' ∈ name then
        if ← Procedure.ask (.isRunnable (Path.ofWritten name)) then return name
        else throw (.invocation (.notOnSearchPath name))
      else
        match ← searchProgram name searchPath with
        | some found => return found
        | none => throw (.invocation (.notOnSearchPath name))

def debugArguments (debug : Bool) : List Text :=
  if debug then ["-debug:portable", "-optimize-"] else ["-debug-", "-optimize+"]

def arguments (c : Compiler) (request : EmitRequest) (output : Path) : List Text :=
  let target : List Text := ["-nologo", "-target:library", "-out:" ++ output.toText]
  let references : List Text := request.references.map fun p => "-r:" ++ p.toText
  c.command.drop 1 ++ target ++ debugArguments request.debug ++ references ++ c.extraArguments
    ++ [request.path.toText]

def commandLine (c : Compiler) (searchPath : List Path) (request : EmitRequest) (output : Path) :
    Attempt BackEndFault (List Text) := do
  return (← resolveExecutable searchPath c.command) :: c.arguments request output

def outputText (content : Bytes) : Except Text.DecodeFault Text :=
  (Text.decode content).map Text.normalizeBreaks

def logOf (result : ProgramResult) : Except Text.DecodeFault Text := do
  let output ← outputText result.output
  let errorOutput ← outputText result.errorOutput
  return Text.joinWith ['\n'] ([Text.trim output, Text.trim errorOutput].filter (· != []))

def scratchOf (request : EmitRequest) : Path := request.scratch.getD request.path.parent

def outputPath (request : EmitRequest) : Path :=
  (scratchOf request).join (Path.ofText (request.project ++ ".dll"))

def collect (request : EmitRequest) (diagnostics : List Diagnostic) (log : Text) :
    Attempt FileError EmitResult := do
  let symbolsPath := (outputPath request).withExtension ".pdb"
  let symbols ←
    if request.debug then
      if ← Attempt.isPresent symbolsPath then some <$> Attempt.read symbolsPath
      else pure none
    else pure none
  let binary ← Attempt.read (outputPath request)
  return { success := true, binary := some binary, symbols, diagnostics, log }

def emit (c : Compiler) (searchPath : List Path) (launch : Launcher) : BackEnd := fun request => do
  let output := outputPath request
  (Directories.ensure (scratchOf request)).rephrase .file
  let executable ← resolveExecutable searchPath c.command
  let call : ProgramCall := ⟨executable, c.arguments request output, scratchOf request⟩
  let result ← (launch call).rephrase BackEndFault.ofLaunch
  let log ← Attempt.ofOutcome ((logOf result).mapError .encoding)
  let diagnostics ← Attempt.ofOutcome ((CompilerOutput.read log).mapError .number)
  let finished ←
    if result.succeeded then (Attempt.isPresent output).rephrase .file else pure false
  if finished then (collect request diagnostics log).rephrase .file
  else return { success := false, diagnostics, log }

end Compiler

end ScriptWeave
