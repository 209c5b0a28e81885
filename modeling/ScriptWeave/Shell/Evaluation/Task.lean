import ScriptWeave.Shell.Builtin
import ScriptWeave.Shell.Executable
import ScriptWeave.Shell.Expansion
import ScriptWeave.Shell.Reader.Word

namespace ScriptWeave.Shell

/-- What the shell is asked to do. A failure is of no consequence where it is `tested`. -/
inductive Task where
  | command (c : Command) (isTested : Bool)
  | source (s : Source) (isTested isFresh : Bool)
  | rounds (goal : Bool) (condition body : Command) (status : Nat) (isTested : Bool)
  | program (i : Invocation)

abbrev Perform := Task → Run Unit

namespace Evaluation

variable (perform : Perform)

def runText (t : Text) (isTested : Bool) : Run Unit :=
  perform (.source { rest := t } isTested true)

def runAction (action : Text) : Run Unit := do
  let s ← get
  set { s with savedStatus := some (s.savedStatus.getD s.status) }
  runText perform action false
  modify fun after => { after with status := s.status, savedStatus := s.savedStatus }

def runActions : List Nat → Run Unit
  | [] => return ()
  | n :: ns => do
      match (← get).traps.find? fun e => e.1 = n with
      | some (_, action) => if action != [] then runAction perform action
      | none => pure ()
      runActions ns

def runPending : Run Unit := do
  let s ← get
  if s.pending != [] ∧ s.isSubshell = false then
    set { s with pending := [] }
    runActions perform s.pending

/-- Does what is to be done at the end of a shell. The status is as before, unless the action ends the
shell with a status of its own. -/
def runLast : Run Unit := do
  let s ← get
  match s.traps.find? fun e => e.1 = 0 with
  | some (_, action) => do
      set { s with
        traps := s.traps.filter fun e => e.1 ≠ 0
        savedStatus := some s.status
        loopDepth := 0 }
      match ← ExceptT.lift (runText perform action false).run with
      | .ok () => setStatus s.status
      | .error .exit => return ()
      | .error .failed => return ()
      | .error stop => throw stop
  | none => return ()

def runToEnd (run : Run Unit) : Run Unit := do
  match ← ExceptT.lift run.run with
  | .error (.killed signal) => throw (.killed signal)
  | .error .exhausted => throw .exhausted
  | _ => runLast perform

def forSubshell (s : Session) : Session := { s with
  isSubshell := true
  outerTraps := if s.isSubshell then s.outerTraps else s.traps
  traps := s.traps.filter fun e => e.2 = [] }

def subshell (change : Session → Session) (run : Run Unit) : Run Unit :=
  inSubshell (fun s => change (forSubshell s)) (runToEnd perform run)

variable (perform : Perform)

def addPipe (content : Text) : Run Nat := do
  let (s, number) := (← get).addChannel (.pipe [] content)
  set s
  return number

def takeWritten (number : Nat) : Run Text := do
  let s ← get
  set { s with channels := s.channels.filter fun c => c.1 ≠ number }
  return ((s.channels.find? fun c => c.1 = number).map (·.2.content)).getD []

def dropLastBreaks (t : Text) : Text := (t.reverse.dropWhile (· = '\n')).reverse

def substitute (body : Option Command) : Run Text := do
  match body with
  | none => return []
  | some c => do
      let status := (← get).status
      let number ← addPipe []
      subshell perform (·.connect 1 (some number)) (perform (.command c false))
      let t ← takeWritten number
      modify fun s => { s with status, innerStatus := s.status }
      return dropLastBreaks (t.filter (· ≠ '\x00'))

def plainName? : Command → Option Text
  | .simple _ _ (w :: _) _ => (nameIn? (fun _ => false) w).filter isName
  | _ => none

def searchAhead : List Command → Run Unit
  | [] => return ()
  | c :: cs => do
      let s ← get
      match (plainName? c).filter fun t => !Builtin.isKnown t && !s.functions.any (·.1 = t) with
      | some name =>
          let _ ← findAndRemember name
      | none => pure ()
      searchAhead cs

def runStages (isTested : Bool) : List Command → Option Nat → Run Unit
  | [], _ => return ()
  | [c], input => subshell perform (fun s => connectInput s input) (perform (.command c isTested))
  | c :: c' :: cs, input => do
      let output ← addPipe []
      subshell perform (fun s => (connectInput s input).connect 1 (some output))
        (perform (.command c isTested))
      let next ← addPipe (← takeWritten output)
      runStages isTested (c' :: cs) (some next)
where
  connectInput (s : Session) (input : Option Nat) : Session :=
    match input with
    | some number => s.connect 0 (some number)
    | none => s

def runInBackground (c : Command) : Run Unit := do
  let number ← addPipe []
  subshell perform (·.connect 0 (some number)) (perform (.command c false))
  let s ← get
  let process := 1000 + s.nextNumber
  set { s with
    nextNumber := s.nextNumber + 1
    status := 0
    finished := (process, s.status) :: s.finished
    lastBackground := some process }

variable (perform : Perform)

def forProgram (s : Session) : Session := { s with
  arguments := []
  store := s.store.filter (·.isExported)
  functions := []
  aliases := []
  options := []
  traps := s.traps.filter fun e => e.2 = []
  outerTraps := []
  savedStatus := none
  status := 0
  innerStatus := 0
  line := 0
  commandName := none
  loopDepth := 0
  frames := []
  finished := []
  lastBackground := none
  found := []
  isSubshell := false }

def runProgram (i : Invocation) : Run Unit := do
  let before ← get
  set (forProgram before)
  let result ← ExceptT.lift (perform (.program i)).run
  modify (before.afterSubshell ·)
  match result with
  | .error .exhausted => throw .exhausted
  | .error (.killed n) => do
      (Signal.notice? n).forM fun t => write 2 (t ++ ['\n'])
      setStatus (128 + n)
  | _ => return ()

def startFault (cause : FileCause) : Nat × Text :=
  match cause with
  | .missing | .notDirectory => (127, "not found")
  | .nameTooLong | .tooManyLinks => (127, cause.reason)
  | cause => (126, cause.reason)

def start (name path : Text) (arguments : List Text) : Run Unit := do
  let s ← get
  let complainAbout (cause : FileCause) : Run Unit := do
    let (status, message) := startFault cause
    complain (name ++ ": " ++ message)
    setStatus status
  match ← (Executable.find s.directory Executable.depthLimit name path arguments).run with
  | .ok i => runProgram perform i
  | .error .notExecutable => runProgram perform ⟨"sh", "/bin/sh", path :: arguments⟩
  | .error cause => complainAbout cause

def runNamed (name : Text) (arguments : List Text) : Run Unit := do
  match ← findAndRemember name with
  | .path t => start perform name t arguments
  | found => do
      complain (name ++ ": " ++ found.complaint)
      setStatus 127

def replaceShell (name : Text) (arguments : List Text) : Run Unit := do
  modify fun s => { s with traps := s.traps.filter fun e => e.1 ≠ 0 }
  match ← findProgram (← get) name with
  | .denied => do
      complain (name ++ ": " ++ Found.denied.complaint)
      setStatus 126
  | _ => runNamed perform name arguments
  throw .exit

variable (perform : Perform)

def runRound (run : Run Unit) : Run Bool := do
  match ← ExceptT.lift run.run with
  | .ok () => return true
  | .error (.loop levels on) =>
      if levels ≤ 1 then return on else throw (.loop (levels - 1) on)
  | .error stop => throw stop

def inLoop (run : Run Unit) : Run Unit := do
  let depth := (← get).loopDepth
  modify fun s => { s with loopDepth := depth + 1 }
  afterwards run fun s => { s with loopDepth := depth }

def runRounds (goal : Bool) (condition body : Command) (status : Nat) (isTested : Bool) :
    Run Unit := do
  let mut holds := false
  let goesOn ← runRound (perform (.command condition true))
  if goesOn then holds := ((← get).status = 0) = goal
  if !goesOn then setStatus status
  else if !holds then setStatus status
  else if ← runRound (perform (.command body isTested)) then
    perform (.rounds goal condition body (← get).status isTested)

def runForEach (name : Text) (body : Command) (isTested : Bool) : List Text → Run Unit
  | [] => return ()
  | value :: values => do
      assign name value
      if ← runRound (perform (.command body isTested)) then
        runForEach name body isTested values

end Evaluation

end ScriptWeave.Shell
