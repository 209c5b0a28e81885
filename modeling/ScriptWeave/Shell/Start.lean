import ScriptWeave.Shell.Evaluation

namespace ScriptWeave.Shell

namespace Start

variable (perform : Perform)

def startDirectory (s : Session) : Procedure Path := do
  let told := ((s.setting? "PWD").map fun t => Path.ofText (outward t)).filter (·.isAbsolute)
  let here := (← Procedure.ask (.resolve s.directory)).toOption
  match told with
  | some p =>
      if here.isSome ∧ (← Procedure.ask (.resolve p)).toOption = here then return p
      else return here.getD s.directory
  | none => return here.getD s.directory

def ownVariables : List (Text × Text) := [
  ("IFS", [' ', '\t', '\n']), ("OPTIND", ['1']), ("PS1", ['#', ' ']), ("PS2", ['>', ' ']),
  ("PS4", ['+', ' ']), ("PPID", "999")]

def withSearchPath (s : Session) : Session :=
  if (s.setting? "PATH").isSome then s
  else s.putVariable ⟨"PATH", some defaultSearchPath, false, false⟩

def setUp : Run Unit := do
  let s ← get
  let directory ← startDirectory s
  let s := ownVariables.foldl (fun (s : Session) (v : Text × Text) =>
    s.putVariable ⟨v.1, some v.2, false, false⟩) (withSearchPath s)
  set { s.putVariable ⟨"PWD", some (inward directory.toText), true, false⟩ with directory }

def readLetters (isSet : Bool) : Text → List Text → Run (Bool × List Text)
  | [], rest => return (false, rest)
  | 'c' :: letters, rest => do
      let (_, rest) ← readLetters isSet letters rest
      return (true, rest)
  | 'l' :: letters, rest => readLetters isSet letters rest
  | 'o' :: letters, rest => do
      match rest with
      | [] => Builtin.showOptions !isSet
      | name :: _ => Builtin.setNamed isSet name
      readLetters isSet letters (rest.drop 1)
  | c :: letters, rest => do
      Builtin.setLetter isSet c
      readLetters isSet letters rest

def readOptions : Nat → List Text → Run (Bool × List Text)
  | 0, arguments => return (false, arguments)
  | fuel + 1, arguments => do
      match arguments with
      | ['-'] :: rest => return (false, rest)
      | ['-', '-'] :: rest => return (false, rest)
      | ('-' :: letters) :: rest => do
          let (isCommand, rest) ← readLetters true letters rest
          let (isCommand', rest) ← readOptions fuel rest
          return (isCommand || isCommand', rest)
      | ('+' :: letters) :: rest => do
          let (isCommand, rest) ← readLetters false letters rest
          let (isCommand', rest) ← readOptions fuel rest
          return (isCommand || isCommand', rest)
      | rest => return (false, rest)

def runAs (name : Text) (arguments : List Text) (t : Text) : Run Unit := do
  modify fun s => { s with name, arguments }
  Evaluation.runText perform t false

def runArgument (name : Text) (arguments : List Text) : Run Unit := do
  match arguments with
  | [] => abort "-c requires an argument"
  | [t] => runAs perform name [] t
  | t :: name :: arguments => runAs perform name arguments t

def runInput (name : Text) (arguments : List Text) : Run Unit := do
  modify fun s => Session.setOption s 's' true
  let t := (← unread 0).toOption.getD []
  consume 0 t.length
  runAs perform name arguments t

def runScript (t : Text) (arguments : List Text) : Run Unit := do
  let s ← get
  match ← Redirect.openFile s .read t with
  | .error cause => abort (Redirect.complaint .read cause t)
  | .ok _ => do
      let content := (← Procedure.ask (.read (s.locate t))).toOption.getD []
      runAs perform t arguments (ofBytes content)

def shell (i : Invocation) : Run Unit := do
  modify fun s => { s with name := i.name }
  setUp
  Evaluation.runToEnd perform do
    let (isCommand, rest) ← readOptions (i.arguments.length + 1) i.arguments
    match isCommand, (← get).has 's', rest with
    | true, _, rest => runArgument perform i.name rest
    | false, true, rest => runInput perform i.name rest
    | false, false, [] => runInput perform i.name []
    | false, false, t :: arguments => runScript perform t arguments

def clearVariables : Run Unit := modify fun s => { s with store := [] }

def splitWords (t : Text) : List Text :=
  (Text.pieces (fun c => c = ' ' || c = '\t') t).filter (· != [])

def readEnvironment : Nat → List Text → Run (List Text)
  | 0, arguments => return arguments
  | fuel + 1, arguments => do
      match arguments with
      | ['-'] :: rest => do
          clearVariables
          readEnvironment fuel rest
      | ['-', 'i'] :: rest => do
          clearVariables
          readEnvironment fuel rest
      | ['-', 'u'] :: name :: rest => do
          modify (·.dropVariable name)
          readEnvironment fuel rest
      | ['-', 'S'] :: t :: rest => readEnvironment fuel (splitWords t ++ rest)
      | ('-' :: 'S' :: t) :: rest => readEnvironment fuel (splitWords t ++ rest)
      | ['-', '-'] :: rest => readEnvironment fuel rest
      | t :: rest => do
          match Builtin.splitArgument t with
          | (name, some value) => do
              modify fun s => s.putVariable ⟨name, some value, true, false⟩
              readEnvironment fuel rest
          | (_, none) => return t :: rest
      | [] => return []

def environment (i : Invocation) : Run Unit := do
  match ← readEnvironment (i.arguments.length + 1) i.arguments with
  | [] => do
      let s ← get
      write 1 (s.exported.reverse.flatMap fun v => v.1 ++ '=' :: v.2 ++ ['\n'])
      setStatus 0
  | name :: arguments => do
      let s ← get
      match ← findProgram (withSearchPath s) name with
      | .missing => fault i.name name .missing
      | .denied => fault i.name name (if name = [] then .missing else .denied)
      | .path path => do
          match ← (Executable.find s.directory Executable.depthLimit name path arguments).run with
          | .ok i => Evaluation.runProgram perform i
          | .error .notExecutable =>
              Evaluation.runProgram perform ⟨"sh", "/bin/sh", path :: arguments⟩
          | .error cause => fault i.name name cause
where
  fault (own name : Text) (cause : FileCause) : Run Unit := do
    let _ ← Utility.fail own (Utility.quotedName name ++ ": " ++ cause.reason)
    if cause = .missing ∧ ' ' ∈ name then
      let _ ← Utility.fail own "use -[v]S to pass options in shebang lines"
    setStatus (if cause = .missing then 127 else 126)

def program (i : Invocation) : Run Unit := do
  if i.program = "env".toList then environment perform i
  else
    match Utility.find? i.program with
    | some run => do
        modify fun s => { s with name := i.name }
        setStatus (← run i.arguments)
    | none => shell perform i

end Start

def step (perform : Perform) : Task → Run Unit
  | .command c isTested => Evaluation.runCommand perform c isTested
  | .source s isTested isFresh => Evaluation.runSource perform s isTested isFresh
  | .rounds goal condition body status isTested =>
      Evaluation.runRounds perform goal condition body status isTested
  | .program i => Start.program perform i

def evaluate : Nat → Perform
  | 0 => fun _ => throw .exhausted
  | fuel + 1 => step (evaluate fuel)

def stepLimit : Nat := 1000000

end ScriptWeave.Shell
