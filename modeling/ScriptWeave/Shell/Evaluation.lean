import ScriptWeave.Shell.Evaluation.Task
import ScriptWeave.Shell.Expansion

namespace ScriptWeave.Shell.Evaluation

variable (perform : Perform)

def commandOf (fields : List Text) : Option Text :=
  (fields.dropWhile (· = "command".toList)).head?

def expandWord (w : Word) : Run (List Text) := do
  return (← (← expandFields (substitute perform) w).mapM expandFilename).flatten

def expandWords (fields : List Text) : List Word → Run (List Text)
  | [] => return fields
  | w :: ws => do
      match (commandOf fields).any Builtin.takesAssignments, Reader.splitAssignment? [] w with
      | true, some (name, value) => do
          let t ← expandAssigned (substitute perform) value
          expandWords (fields ++ [name ++ '=' :: t]) ws
      | _, _ => do expandWords (fields ++ (← expandWord perform w)) ws

def expandAssignments : List (Text × Word) → Run (List (Text × Text))
  | [] => return []
  | (name, value) :: more => do
      let t ← expandAssigned (substitute perform) value
      assign name t
      return (name, t) :: (← expandAssignments more)

def trace (before : Session) (assignments : List (Text × Text)) (fields : List Text) :
    Run Unit := do
  let s ← get
  if s.has 'x' then
    let words := assignments.map (fun a => a.1 ++ '=' :: a.2) ++ fields
    let errors := (before.descriptors.find? fun d => d.1 = 2).map (·.2)
    set (s.connect 2 errors)
    write 2 ((s.setting? "PS4").getD [] ++ Text.joinWith [' '] words ++ ['\n'])
    modify (·.connect 2 ((s.descriptors.find? fun d => d.1 = 2).map (·.2)))

variable (perform : Perform)

def exit (arguments : List Text) : Run Unit := do
  match arguments with
  | [] => modify fun s => { s with status := s.savedStatus.getD s.status }
  | t :: _ => setStatus ((← Builtin.readNumber t) % 256)
  throw .exit

def returnFrom (arguments : List Text) : Run Unit := do
  match arguments with
  | [] => pure ()
  | t :: _ => setStatus ((← Builtin.readNumber t) % 256)
  throw .function

def leaveLoop (on : Bool) (arguments : List Text) : Run Unit := do
  let levels ← match arguments with
    | [] => pure 1
    | t :: _ => do
        match ← Builtin.readNumber t with
        | 0 => abort ("Illegal number: " ++ t)
        | n => pure n
  setStatus 0
  let depth := (← get).loopDepth
  if depth ≠ 0 then throw (.loop (min levels depth) on)

def runFile (arguments : List Text) : Run Unit := do
  match arguments with
  | [] => setStatus 0
  | t :: _ => do
      let s ← get
      let found ← if '/' ∈ t then pure (some t) else searchFile s t (searchPathOf s)
      match found with
      | none => abort (t ++ ": not found")
      | some p => do
          match ← Procedure.ask (.read (s.locate p)) with
          | .error ⟨.isDirectory, _⟩ => setStatus 0
          | .error e => abort (Redirect.complaint .read e.cause p)
          | .ok content => do
              modify fun s => { s with commandName := some p }
              match ← ExceptT.lift (runText perform (ofBytes content) false).run with
              | .ok () | .error .function => return ()
              | .error stop => throw stop

def runFunction (f : Function) (arguments : List Text) (isTested : Bool) : Run Unit := do
  let before ← get
  set { before with arguments, loopDepth := 0, frames := {} :: before.frames }
  let leave (s : Session) : Session :=
    let restored := match s.frames with
      | frame :: _ =>
          let s := frame.shadowed.foldl (fun (s : Session) (v : Text × Option Variable) =>
            s.restoreVariable v.1 v.2) s
          { s with options := frame.options.getD s.options }
      | [] => s
    { restored with
      arguments := before.arguments
      loopDepth := before.loopDepth
      frames := before.frames
      optionOffset := before.optionOffset }
  match ← ExceptT.lift (afterwards (perform (.command f.body isTested)) leave).run with
  | .ok () | .error .function => return ()
  | .error stop => throw stop

def runBuiltin (name : Text) (arguments : List Text) (isTested : Bool) : Run Unit := do
  if name = "eval".toList then runText perform (Text.joinWith [' '] arguments) isTested
  else if name = ".".toList then runFile perform arguments
  else if name = "exit".toList then exit arguments
  else if name = "return".toList then returnFrom arguments
  else if name = "break".toList then leaveLoop false arguments
  else if name = "continue".toList then leaveLoop true arguments
  else if name = "type".toList then setStatus (← Builtin.describeAll arguments)
  else if name = "hash".toList then setStatus (← Builtin.hash arguments)
  else if name = "exec".toList then
    match arguments with
    | [] => setStatus 0
    | ['-', '-'] :: [] => setStatus 0
    | ['-', '-'] :: name :: arguments => replaceShell perform name arguments
    | name :: arguments => replaceShell perform name arguments
  else
    match Builtin.find? name with
    | some run => setStatus (← run arguments)
    | none => setStatus 0

def under {α : Type} (name : Text) (run : Run α) : Run (Option α) := do
  let outer := (← get).commandName
  modify fun s => { s with commandName := some name }
  match ← ExceptT.lift (afterwards run fun s => { s with commandName := outer }).run with
  | .ok a => return some a
  | .error .failed => return none
  | .error stop => throw stop

def runOwn (isStrict : Bool) (name : Text) (arguments : List Text) (isTested : Bool) :
    Run Unit := do
  if (← under name (runBuiltin perform name arguments isTested)).isNone then
    setStatus 2
    if isStrict then throw .failed

def withAssignments (assignments : List (Text × Word)) (run : List (Text × Text) → Run Unit) :
    Run Unit := do
  let before ← get
  let restore (s : Session) : Session := assignments.foldl (fun s a =>
    (s.restoreVariable a.1 (before.lookUp? a.1)).forget a.1) s
  afterwards (do
    let values ← expandAssignments perform assignments
    modify fun s => values.foldl (fun s a =>
      match s.lookUp? a.1 with
      | some v => s.putVariable { v with isExported := true }
      | none => s) s
    run values) restore

/-- What is left of words that say how a command is looked for, and whether it is to be described. -/
inductive Prefixed where
  | run (fields : List Text)
  | describe (isShort : Bool) (names : List Text)

def readCommandOptions (arguments : List Text) : Run Prefixed := do
  let (letters, rest) ← Builtin.takeOptions ['p', 'v', 'V'] arguments
  if 'V' ∈ letters then return .describe false rest
  else if 'v' ∈ letters then return .describe true rest
  else return .run rest

def runFields (assignments : List (Text × Word)) (before : Session) (isTested isBare : Bool)
    (fields : List Text) : Run Unit := do
  match fields with
  | [] => do
      let values ← expandAssignments perform assignments
      trace before values []
      modify fun s => { s with status := s.innerStatus }
  | name :: arguments => do
      let s ← get
      if Builtin.isSpecial name ∧ isBare = false then
        let values ← expandAssignments perform assignments
        trace before values fields
        runOwn perform true name arguments isTested
      else
        withAssignments perform assignments fun values => do
          match if isBare then none else (s.functions.find? fun f => f.1 = name).map (·.2) with
          | some f => do
              trace before values fields
              runFunction perform f arguments isTested
          | none => do
              if !isBare then trace before values fields
              if Builtin.isKnown name then runOwn perform false name arguments isTested
              else runNamed perform name arguments

def runPrefixed (assignments : List (Text × Word)) (before : Session) (isTested : Bool) :
    Nat → List Text → Run Unit
  | 0, _ => return ()
  | depth + 1, fields => do
      match fields with
      | name :: arguments => do
          if name = "command".toList then
            match ← under name (readCommandOptions arguments) with
            | some (.describe isShort (t :: _)) =>
                setStatus ((← under name (Builtin.describe isShort t)).getD 2)
            | some (.describe _ []) => setStatus 0
            | some (.run []) => setStatus 0
            | some (.run rest) => runPrefixed assignments before isTested depth rest
            | none => setStatus 2
          else runFields perform assignments before isTested true fields
      | [] => setStatus 0

def keepsRedirections (fields : List Text) : Bool := commandOf fields = some "exec".toList

def runExpanded (assignments : List (Text × Word)) (before : Session) (isTested : Bool)
    (fields : List Text) : Run Unit := do
  if fields.head? = some "command".toList then
    trace before [] fields
    runPrefixed perform assignments before isTested (fields.length + 1) fields
  else runFields perform assignments before isTested false fields

def runSimple (assignments : List (Text × Word)) (words : List Word)
    (redirections : List Redirection) (isTested : Bool) : Run Unit := do
  modify fun s => { s with innerStatus := 0 }
  let fields ← expandWords perform [] words
  let redirects ← redirections.mapM (Redirect.ofRedirection (substitute perform))
  let before ← get
  let isStrict := fields.head?.any Builtin.isSpecial
  let run := runExpanded perform assignments before isTested fields
  let opened ←
    if keepsRedirections fields then
      let opened ← catchFailure (Redirect.applyAll (substitute perform) redirects)
      if opened then run else setStatus 2
      pure opened
    else withRedirects (substitute perform) redirects run
  if !opened && isStrict then throw .failed

variable (perform : Perform)

def fitsOne (t : Text) : List Word → Run Bool
  | [] => return false
  | w :: ws => do
      if (← expandPattern (substitute perform) w).fits t then return true else fitsOne t ws

def runChoice (t : Text) (isTested : Bool) : List (List Word × Option Command) → Run Unit
  | [] => setStatus 0
  | (patterns, body) :: branches => do
      if ← fitsOne perform t patterns then
        match body with
        | some c => perform (.command c isTested)
        | none => setStatus 0
      else runChoice t isTested branches

def checkFailure (isTested : Bool) : Run Unit := do
  let s ← get
  if s.has 'e' ∧ isTested = false ∧ s.status ≠ 0 then throw .exit

def atLine (line : Nat) : Run Unit := modify fun s => { s with line }

def runCommand (c : Command) (isTested : Bool) : Run Unit := do
  runPending perform
  match c with
  | .simple line assignments words redirections => do
      atLine line
      runSimple perform assignments words redirections isTested
      runPending perform
      checkFailure isTested
  | .redirected line body redirections => do
      atLine line
      let redirects ← redirections.mapM (Redirect.ofRedirection (substitute perform))
      let _ ← withRedirects (substitute perform) redirects (perform (.command body isTested))
  | .pipeline stages => do
      searchAhead stages
      runStages perform isTested stages none
      checkFailure isTested
  | .background body => runInBackground perform body
  | .subshell line body redirections => do
      atLine line
      let redirects ← redirections.mapM (Redirect.ofRedirection (substitute perform))
      subshell perform id do
        if ← catchFailure (Redirect.applyAll (substitute perform) redirects) then
          perform (.command body isTested)
        else setStatus 2
      checkFailure isTested
  | .inOrder first second => do
      perform (.command first isTested)
      perform (.command second isTested)
  | .both first second => do
      perform (.command first true)
      if (← get).status = 0 then perform (.command second isTested)
  | .either first second => do
      perform (.command first true)
      if (← get).status ≠ 0 then perform (.command second isTested)
  | .inverted body => do
      perform (.command body true)
      setStatus (statusOf ((← get).status ≠ 0))
  | .branch condition yes no => do
      perform (.command condition true)
      if (← get).status = 0 then perform (.command yes isTested)
      else
        match no with
        | some no => perform (.command no isTested)
        | none => setStatus 0
  | .loop goal condition body => do
      inLoop (perform (.rounds goal condition body 0 isTested))
  | .forEach line name words body => do
      atLine line
      let values ← expandWords perform [] words
      if values = [] then setStatus 0
      inLoop (runForEach perform name body isTested values)
  | .choice line subject branches => do
      atLine line
      runChoice perform (← expandText (substitute perform) subject) isTested branches
  | .define line name body => do
      modify fun s => { s with
        functions := (name, ⟨line, body⟩) :: s.functions.filter fun f => f.1 != name }
      setStatus 0

def runSource (source : Source) (isTested isFresh : Bool) : Run Unit := do
  let s ← get
  match Reader.readLine.run { source with
      aliases := s.aliases
      documents := s.documents
      nextDocument := s.nextNumber } with
  | .error fault => do
      atLine fault.line
      abort ("Syntax error: " ++ fault.message)
  | .ok (line, rest) => do
      modify fun s => { s with
        readLine := rest.line
        documents := rest.documents
        nextNumber := max s.nextNumber rest.nextDocument }
      match line with
      | .stop => if isFresh then setStatus 0
      | .blank => perform (.source rest isTested isFresh)
      | .commands c => do
          if !s.has 'n' then perform (.command c isTested)
          perform (.source rest isTested false)

end ScriptWeave.Shell.Evaluation
