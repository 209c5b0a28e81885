import ScriptWeave.Procedure
import ScriptWeave.Shell.Command

namespace ScriptWeave.Shell

def ofBytes (content : Bytes) : Text := content.map fun b => Char.ofNat b.toNat

def toBytes (t : Text) : Bytes := t.map fun c => UInt8.ofNat c.toNat

def inward (t : Text) : Text := ofBytes (Text.encode t)

def outward (t : Text) : Text :=
  match Text.decode (toBytes t) with
  | .ok decoded => decoded
  | .error _ => t

structure Variable where
  name : Text
  value : Option Text
  isExported : Bool := false
  isReadOnly : Bool := false
  deriving DecidableEq, Repr

inductive Channel where
  | pipe (written : List Text) (unread : Text)
  | file (path : Path) (offset : Nat) (appends : Bool)
  | directory
  deriving DecidableEq, Repr

structure Function where
  line : Nat
  body : Command

/-- What a function that runs has made its own, to be restored after it. -/
structure Frame where
  shadowed : List (Text × Option Variable) := []
  options : Option Text := none
  deriving DecidableEq, Repr

structure Session where
  name : Text
  arguments : List Text := []
  directory : Path
  store : List Variable := []
  functions : List (Text × Function) := []
  aliases : List (Text × Text) := []
  homes : List (Text × Text) := []
  options : Text := []
  /-- What is done at a signal, by its number; zero stands for the end of the shell. -/
  traps : List (Nat × Text) := []
  pending : List Nat := []
  outerTraps : List (Nat × Text) := []
  descriptors : List (Nat × Nat) := []
  channels : List (Nat × Channel) := []
  documents : List (Nat × Word) := []
  nextNumber : Nat := 10
  status : Nat := 0
  savedStatus : Option Nat := none
  /-- How the last command in a word ended, if there was one since the last command began. -/
  innerStatus : Nat := 0
  line : Nat := 0
  readLine : Nat := 0
  commandName : Option Text := none
  loopDepth : Nat := 0
  frames : List Frame := []
  finished : List (Nat × Nat) := []
  lastBackground : Option Nat := none
  found : List (Text × Text) := []
  optionOffset : Nat := 0
  isSubshell : Bool := false
  mask : Nat := 18

inductive Stop where
  | exit
  /-- Something went wrong that ends a script, unless one of its commands is to blame. -/
  | failed
  /-- A loop is left, or if it goes `on`, its body. The loops inside it are left in any case. -/
  | loop (levels : Nat) (on : Bool)
  | function
  | killed (signal : Nat)
  | exhausted
  deriving DecidableEq, Repr

abbrev Run (α : Type) := ExceptT Stop (StateT Session Procedure) α

namespace Session

def processNumber : Text := "1000"

def lookUp? (s : Session) (name : Text) : Option Variable := s.store.find? fun v => v.name = name

def setting? (s : Session) (name : Text) : Option Text := (s.lookUp? name).bind (·.value)

def putVariable (s : Session) (v : Variable) : Session :=
  { s with store := v :: s.store.filter fun w => w.name != v.name }

def dropVariable (s : Session) (name : Text) : Session :=
  { s with store := s.store.filter fun v => v.name != name }

def setVariable (s : Session) (name value : Text) : Session :=
  match s.lookUp? name with
  | some v => s.putVariable { v with value := some value }
  | none => s.putVariable ⟨name, some value, 'a' ∈ s.options, false⟩

def restoreVariable (s : Session) (name : Text) : Option Variable → Session
  | some v => s.putVariable v
  | none => s.dropVariable name

def exported (s : Session) : List (Text × Text) := s.store.filterMap fun v =>
  if v.isExported then v.value.map (v.name, ·) else none

def separators (s : Session) : Text := (s.setting? "IFS").getD [' ', '\t', '\n']

def has (s : Session) (option : Char) : Bool := option ∈ s.options

def locate (s : Session) (t : Text) : Path := s.directory.join (Path.ofWritten (outward t))

def channel? (s : Session) (descriptor : Nat) : Option (Nat × Channel) := do
  let (_, number) ← s.descriptors.find? fun d => d.1 = descriptor
  let (_, channel) ← s.channels.find? fun c => c.1 = number
  return (number, channel)

def putChannel (s : Session) (number : Nat) (channel : Channel) : Session :=
  { s with channels := (number, channel) :: s.channels.filter fun c => c.1 != number }

def connect (s : Session) (descriptor : Nat) (number : Option Nat) : Session :=
  let others := s.descriptors.filter fun d => d.1 != descriptor
  { s with descriptors := (number.map (descriptor, ·)).toList ++ others }

def addChannel (s : Session) (channel : Channel) : Session × Nat :=
  ({ s with channels := (s.nextNumber, channel) :: s.channels, nextNumber := s.nextNumber + 1 },
    s.nextNumber)

end Session

namespace Channel

def content : Channel → Text
  | .pipe written _ => written.reverse.flatten
  | _ => []

end Channel

def setStatus (status : Nat) : Run Unit := modify fun s => { s with status }

def splice (content : Bytes) (offset : Nat) (written : Bytes) : Bytes :=
  content.take offset ++ List.replicate (offset - content.length) 0 ++ written ++
    content.drop (offset + written.length)

def writeFile (p : Path) (offset : Nat) (appends : Bool) (t : Text) : Procedure Unit := do
  match ← Procedure.ask (.read p) with
  | .error _ => return ()
  | .ok content => do
      if appends || content.length = offset then
        let _ ← Procedure.ask (.append p (toBytes t))
      else
        let _ ← Procedure.ask (.write p (splice content offset (toBytes t)))

def tryWrite (descriptor : Nat) (t : Text) : Run Bool := do
  let s ← get
  match s.channel? descriptor with
  | some (number, .pipe written unread) => do
      set (s.putChannel number (.pipe (t :: written) unread))
      return true
  | some (number, .file p offset appends) => do
      writeFile p offset appends t
      set (s.putChannel number (.file p (offset + t.length) appends))
      return true
  | some (_, .directory) => return false
  | none => return false

def write (descriptor : Nat) (t : Text) : Run Unit := do
  let _ ← tryWrite descriptor t

def unread (descriptor : Nat) : Run (Except FileCause Text) := do
  match (← get).channel? descriptor with
  | some (_, .pipe _ unread) => return .ok unread
  | some (_, .file p offset _) =>
      match ← Procedure.ask (.read p) with
      | .ok content => return .ok ((ofBytes content).drop offset)
      | .error e => return .error e.cause
  | some (_, .directory) => return .error .isDirectory
  | none => return .error .invalid

def consume (descriptor count : Nat) : Run Unit := modify fun s =>
  match s.channel? descriptor with
  | some (number, .pipe written unread) => s.putChannel number (.pipe written (unread.drop count))
  | some (number, .file p offset appends) =>
      s.putChannel number (.file p (offset + count) appends)
  | _ => s

def complain (t : Text) : Run Unit := do
  let s ← get
  let command : Text := match s.commandName with
    | some name => name ++ ": "
    | none => []
  write 2 (s.name ++ ": " ++ Text.ofNat s.line ++ ": " ++ command ++ t ++ ['\n'])

def abort {α : Type} (t : Text) : Run α := do
  complain t
  setStatus 2
  throw .failed

def Session.forget (s : Session) (name : Text) : Session :=
  if name = "OPTIND".toList then { s with optionOffset := 0 }
  else if name = "PATH".toList then { s with found := [] }
  else s

def assign (name value : Text) : Run Unit := do
  let s ← get
  if (s.lookUp? name).any (·.isReadOnly) then abort (name ++ ": is read only")
  else set ((s.setVariable name value).forget name)

def Session.afterSubshell (before after : Session) : Session := { before with
  channels := after.channels.filter fun c => c.1 < before.nextNumber
  nextNumber := after.nextNumber
  documents := after.documents
  pending := after.pending
  status := after.status }

/-- Runs in a session of its own; afterwards the session is as before but for what all share. What
stops the run does not stop this shell, unless there is no shell left. -/
def inSubshell (change : Session → Session) (run : Run Unit) : Run Unit := do
  let before ← get
  set (change before)
  let result ← ExceptT.lift run.run
  modify (before.afterSubshell ·)
  match result with
  | .error (.killed signal) => throw (.killed signal)
  | .error .exhausted => throw .exhausted
  | _ => return ()

namespace Signal

def names : List Text := [
  "EXIT", "HUP", "INT", "QUIT", "ILL", "TRAP", "ABRT", "BUS", "FPE", "KILL", "USR1", "SEGV", "USR2",
  "PIPE", "ALRM", "TERM", "16", "CHLD", "CONT", "STOP", "TSTP", "TTIN", "TTOU", "URG", "XCPU",
  "XFSZ", "VTALRM", "PROF", "WINCH", "IO", "PWR", "SYS", "32", "33", "RTMIN"].map String.toList
    ++ (List.range 15).map (fun i => "RTMIN+" ++ Text.ofNat (i + 1))
    ++ (List.range 14).map (fun i => "RTMAX-" ++ Text.ofNat (14 - i)) ++ ["RTMAX".toList]

def ofText? (t : Text) : Option Nat :=
  if t != [] && t.all Char.isDigit then
    let n := t.foldl (fun n c => 10 * n + (c.toNat - '0'.toNat)) 0
    if n < 65 then some n else none
  else
    names.idxOf? (t.map Char.toUpper)

def name (n : Nat) : Text := names[n]?.getD (Text.ofNat n)

def notice? (n : Nat) : Option Text :=
  if n = 1 then some "Hangup"
  else if n = 3 then some "Quit"
  else if n = 4 then some "Illegal instruction"
  else if n = 5 then some "Trace/breakpoint trap"
  else if n = 6 then some "Aborted"
  else if n = 7 then some "Bus error"
  else if n = 8 then some "Floating point exception"
  else if n = 9 then some "Killed"
  else if n = 10 then some "User defined signal 1"
  else if n = 11 then some "Segmentation fault"
  else if n = 12 then some "User defined signal 2"
  else if n = 14 then some "Alarm clock"
  else if n = 15 then some "Terminated"
  else none

def isHarmless (n : Nat) : Bool := n = 17 || n = 18 || n = 23 || n = 28

end Signal

inductive Found where
  | path (t : Text)
  | denied
  | missing
  deriving DecidableEq, Repr

def Found.complaint : Found → Text
  | .denied => FileCause.denied.reason
  | _ => "not found"

def isThere (s : Session) (t : Text) : Procedure Bool := do
  if t = [] then return false
  match ← Procedure.ask (.isPresent (s.locate t)) with
  | .ok isPresent => return isPresent
  | .error _ => return false

def isFile (s : Session) (t : Text) : Procedure Bool := do
  if ← isThere s t then return !(← Procedure.ask (.isDirectory (s.locate t))) else return false

def candidate (name directory : Text) : Text :=
  if directory = [] then name else directory ++ ['/'] ++ name

def searchFile (s : Session) (name : Text) : List Text → Procedure (Option Text)
  | [] => return none
  | directory :: directories => do
      if ← isFile s (candidate name directory) then return some (candidate name directory)
      else searchFile s name directories

def searchProgram (s : Session) (name : Text) (otherwise : Found) : List Text → Procedure Found
  | [] => return otherwise
  | directory :: directories => do
      let t := candidate name directory
      if !(← isThere s t) then searchProgram s name otherwise directories
      else if ← Procedure.ask (.isRunnable (s.locate t)) then return .path t
      else searchProgram s name .denied directories

def defaultSearchPath : Text := "/usr/local/sbin:/usr/local/bin:/usr/sbin:/usr/bin:/sbin:/bin"

def searchPathOf (s : Session) : List Text := Text.pieces (· = ':') ((s.setting? "PATH").getD [])

def findProgram (s : Session) (name : Text) : Procedure Found := do
  if '/' ∈ name then return .path name else searchProgram s name .missing (searchPathOf s)

def remember (name path : Text) : Run Unit := modify fun s =>
  { s with found := (name, path) :: s.found.filter fun f => f.1 != name }

def findAndRemember (name : Text) : Run Found := do
  let found ← findProgram (← get) name
  match found with
  | .path t => if '/' ∉ name then remember name t
  | _ => pure ()
  return found

end ScriptWeave.Shell
