import ScriptWeave.Shell.Builtin.Basic
import ScriptWeave.Shell.Expansion
import ScriptWeave.Shell.Reader.Line
import ScriptWeave.Shell.Reader.Word
import ScriptWeave.Shell.Session

namespace ScriptWeave.Shell

namespace Builtin

def listVariables (lead : Text) (isShown : Variable → Bool) : Run Nat := do
  let shown := ((← get).store.filter isShown).mergeSort fun v w => Text.isOrdered v.name w.name
  print 0 (shown.flatMap fun v =>
    let value : Text := match v.value with
      | some t => '=' :: singleQuoted t
      | none => []
    lead ++ v.name ++ value ++ ['\n'])

def splitArgument (t : Text) : Text × Option Text :=
  let name := t.takeWhile (· ≠ '=')
  (name, (t.drop name.length).tail?)

def requireName (t : Text) : Run Unit := do
  if !isName t then abort (t ++ ": bad variable name")

def markVariable (mark : Variable → Variable) (t : Text) : Run Unit := do
  let (name, value) := splitArgument t
  requireName name
  value.forM (assign name)
  modify fun s => s.putVariable (mark ((s.lookUp? name).getD ⟨name, none, false, false⟩))

def markVariables (lead : Text) (isMarked : Variable → Bool) (mark : Variable → Variable)
    (arguments : List Text) : Run Nat := do
  match ← takeOptions ['p'] arguments with
  | (_, []) => listVariables lead isMarked
  | (['p'], _) => listVariables lead isMarked
  | (_, arguments) => do
      arguments.forM (markVariable mark)
      return 0

def exportVariables : List Text → Run Nat :=
  markVariables "export " (·.isExported) fun v => { v with isExported := true }

def protectVariables : List Text → Run Nat :=
  markVariables "readonly " (·.isReadOnly) fun v => { v with isReadOnly := true }

def localize (t : Text) : Run Unit := do
  let s ← get
  match s.frames with
  | [] => abort "not in a function"
  | frame :: frames =>
      if t = ['-'] then
        set { s with frames := { frame with options := some (frame.options.getD s.options) } :: frames }
      else
        let (name, value) := splitArgument t
        requireName name
        if !frame.shadowed.any fun v => v.1 = name then
          let shadowed := (name, s.lookUp? name) :: frame.shadowed
          set { s with frames := { frame with shadowed } :: frames }
        value.forM (assign name)

def makeLocal (arguments : List Text) : Run Nat := do
  if (← get).frames.isEmpty then abort "not in a function"
  arguments.forM localize
  return 0

def unsetOne (letters : Text) (name : Text) : Run Unit := do
  if letters.getLast? = some 'f' then
    modify fun s => { s with functions := s.functions.filter fun f => f.1 != name }
  else
    requireName name
    if ((← get).lookUp? name).any (·.isReadOnly) then abort (name ++ ": is read only")
    modify (·.dropVariable name)

def unset (arguments : List Text) : Run Nat := do
  let (letters, names) ← takeOptions ['v', 'f'] arguments
  names.forM (unsetOne letters)
  return 0

end Builtin

def optionNames : List (Text × Option Char) := [
  ("errexit", some 'e'), ("noglob", some 'f'), ("ignoreeof", some 'I'),
  ("interactive", some 'i'), ("monitor", some 'm'), ("noexec", some 'n'), ("stdin", some 's'),
  ("xtrace", some 'x'), ("verbose", some 'v'), ("vi", some 'V'), ("emacs", some 'E'),
  ("noclobber", some 'C'), ("allexport", some 'a'), ("notify", some 'b'), ("nounset", some 'u'),
  ("privileged", some 'p'), ("nolog", none), ("debug", none)]

namespace Session

def setOption (s : Session) (letter : Char) (isSet : Bool) : Session :=
  { s with options := (optionNames.reverse.filterMap (·.2)).filter fun c =>
      if c = letter then isSet else s.has c }

end Session

namespace Builtin

def setLetter (isSet : Bool) (letter : Char) : Run Unit := do
  if optionNames.any fun o => o.2 = some letter then modify (·.setOption letter isSet)
  else abort ("Illegal option -" ++ [letter])

def setNamed (isSet : Bool) (name : Text) : Run Unit := do
  match optionNames.find? fun o => o.1 = name with
  | some (_, some letter) => modify (·.setOption letter isSet)
  | some (_, none) => return ()
  | none => abort ("Illegal option -o " ++ name)

def optionLine (s : Session) (o : Text × Option Char) : Text :=
  o.1 ++ List.replicate (16 - o.1.length) ' ' ++ (if o.2.any s.has then "on\n" else "off\n").toList

def showOptions (asCommands : Bool) : Run Unit := do
  let s ← get
  if asCommands then
    write 1 (optionNames.flatMap fun o =>
      (if o.2.any s.has then "set -o " else "set +o ").toList ++ o.1 ++ ['\n'])
  else write 1 ("Current option settings\n" ++ optionNames.flatMap (optionLine s))

def setLetters (isSet : Bool) : Text → List Text → Run (List Text)
  | [], rest => return rest
  | 'o' :: letters, [] => do
      showOptions !isSet
      setLetters isSet letters []
  | 'o' :: letters, name :: rest => do
      setNamed isSet name
      setLetters isSet letters rest
  | c :: letters, rest => do
      setLetter isSet c
      setLetters isSet letters rest

def setOptions : Nat → List Text → Run (Option (List Text))
  | 0, _ => return none
  | _ + 1, [] => return none
  | _ + 1, ['-', '-'] :: rest => return some rest
  | _ + 1, ['-'] :: rest => do
      modify fun s => (s.setOption 'x' false).setOption 'v' false
      return if rest = [] then none else some rest
  | fuel + 1, ('-' :: letters) :: rest => do setOptions fuel (← setLetters true letters rest)
  | fuel + 1, ('+' :: letters) :: rest => do setOptions fuel (← setLetters false letters rest)
  | _ + 1, rest => return some rest

def setArguments (arguments : List Text) : Run Nat := do
  if arguments = [] then listVariables [] (·.value.isSome)
  else
    match ← setOptions (arguments.length + 1) arguments with
    | some arguments => modify fun s => { s with arguments, optionOffset := 0 }
    | none => pure ()
    return 0

def shift (arguments : List Text) : Run Nat := do
  let count ← match arguments with
    | [] => pure 1
    | t :: _ => readNumber t
  let s ← get
  if s.arguments.length < count then abort "can't shift that many"
  else
    modify fun s => { s with arguments := s.arguments.drop count, optionOffset := 0 }
    return 0

def optionKind? (letter : Char) : Text → Option Bool
  | [] => none
  | c :: ':' :: rest => if c = letter then some true else optionKind? letter rest
  | c :: rest => if c = letter then some false else optionKind? letter rest

/-- What was found at the next place: the letter, the text of its argument, and where the search goes
on, by the number of the word and the place in it. -/
structure FoundOption where
  letter : Char
  argument : Option Text
  index : Nat
  offset : Nat
  complaint : Option Text := none

def lettersAt (arguments : List Text) (index offset : Nat) : Except Nat (Text × Nat) :=
  let current := if index ≤ 1 ∨ offset = 0 then [] else (arguments[index - 2]?.getD []).drop offset
  match current with
  | c :: rest => .ok (c :: rest, index)
  | [] =>
      match arguments[index - 1]? with
      | some ['-', '-'] => .error (index + 1)
      | some ('-' :: c :: rest) => .ok (c :: rest, index + 1)
      | _ => .error index

def findOption (allowed : Text) (arguments : List Text) (letter : Char) (rest : Text)
    (index : Nat) : FoundOption :=
  let isQuiet := allowed.head? = some ':'
  let offset := if rest = [] then 0 else (arguments[index - 2]?.getD []).length - rest.length
  match optionKind? letter (if isQuiet then allowed.drop 1 else allowed) with
  | none =>
      if isQuiet then ⟨'?', some [letter], index, offset, none⟩
      else ⟨'?', none, index, offset, some ("Illegal option -" ++ [letter])⟩
  | some false => ⟨letter, some [], index, offset, none⟩
  | some true =>
      match rest, arguments[index - 1]? with
      | _ :: _, _ => ⟨letter, some rest, index, 0, none⟩
      | [], some argument => ⟨letter, some argument, index + 1, 0, none⟩
      | [], none =>
          if isQuiet then ⟨':', some [letter], index, 0, none⟩
          else ⟨'?', none, index, 0, some ("No arg for -" ++ [letter] ++ " option")⟩

def finishOption (name : Text) (index offset : Nat) (letter : Char) : Run Unit := do
  assign "OPTIND" (Text.ofNat index)
  modify fun s => { s with optionOffset := offset }
  requireName name
  assign name [letter]

def nextOption (allowed name : Text) (arguments : List Text) : Run Nat := do
  let s ← get
  let index := max 1 (((s.setting? "OPTIND").bind (Arithmetic.integer? (some 10))).getD 1).toNat
  match lettersAt arguments index s.optionOffset with
  | .error index => do
      finishOption name index 0 '?'
      return 1
  | .ok ([], index) => do
      finishOption name index 0 '?'
      return 1
  | .ok (letter :: rest, index) => do
      let found := findOption allowed arguments letter rest index
      match found.argument with
      | some t => assign "OPTARG" t
      | none => modify (·.dropVariable "OPTARG")
      found.complaint.forM fun t => write 2 (t ++ ['\n'])
      finishOption name found.index found.offset found.letter
      return 0

def getopts (arguments : List Text) : Run Nat := do
  match arguments with
  | allowed :: name :: [] => nextOption allowed name (← get).arguments
  | allowed :: name :: arguments => nextOption allowed name arguments
  | _ => abort "Usage: getopts optstring var [arg...]"

/-- A line at the start of a text: its characters, how many of the text it takes, and whether its end
is there. A backslash quotes the next character and joins lines, unless the line is raw. Zeros are
skipped. -/
def takeLine (isRaw : Bool) : Text → List Glyph × Nat × Bool
  | [] => ([], 0, false)
  | '\n' :: _ => ([], 1, true)
  | '\x00' :: rest =>
      let (gs, count, isComplete) := takeLine isRaw rest
      (gs, count + 1, isComplete)
  | '\\' :: c :: rest =>
      if isRaw then
        let (gs, count, isComplete) := takeLine isRaw (c :: rest)
        (⟨'\\', true⟩ :: gs, count + 1, isComplete)
      else
        let (gs, count, isComplete) := takeLine isRaw rest
        (if c = '\n' then gs else ⟨c, true⟩ :: gs, count + 2, isComplete)
  | c :: rest =>
      let (gs, count, isComplete) := takeLine isRaw rest
      (if c = '\\' && !isRaw then gs else ⟨c, false⟩ :: gs, count + 1, isComplete)
termination_by t => t.length

def isSeparator (separators : Text) (g : Glyph) : Bool := !g.isQuoted && separators.contains g.char

def isBlankEdge (separators : Text) (g : Glyph) : Bool :=
  isSeparator separators g && isBlankSeparator g.char

def fieldsOfLine (separators : Text) (gs : List Glyph) : List (List Glyph) :=
  fieldsOf separators (gs.map fun g => .glyph g !g.isQuoted)

def takeField (separators : Text) (gs : List Glyph) : List Glyph × List Glyph :=
  let gs := gs.dropWhile (isBlankEdge separators)
  let field := gs.takeWhile fun g => !isSeparator separators g
  let rest := (gs.drop field.length).dropWhile (isBlankEdge separators)
  match rest with
  | g :: more =>
      if isSeparator separators g then (field, more.dropWhile (isBlankEdge separators))
      else (field, rest)
  | [] => (field, [])

def lastField (separators : Text) (gs : List Glyph) : List Glyph :=
  match fieldsOfLine separators gs with
  | [] => []
  | [field] => field
  | _ =>
      let gs := gs.dropWhile (isBlankEdge separators)
      (gs.reverse.dropWhile (isBlankEdge separators)).reverse

def assignFields (separators : Text) : List Text → List Glyph → Run Unit
  | [], _ => return ()
  | [name], gs => do
      requireName name
      assign name ((lastField separators gs).map (·.char))
  | name :: name' :: names, gs => do
      requireName name
      let (field, rest) := takeField separators gs
      assign name (field.map (·.char))
      assignFields separators (name' :: names) rest

def dropPrompt : List Text → List Text
  | ['-', 'p'] :: _ :: rest => dropPrompt rest
  | t :: rest => t :: rest
  | [] => []

def readVariables (arguments : List Text) : Run Nat := do
  let (letters, names) ← takeOptions ['r'] (dropPrompt arguments)
  if names = [] then abort "arg count"
  else
    let t := (← unread 0).toOption.getD []
    let (gs, count, isComplete) := takeLine ('r' ∈ letters) t
    consume 0 count
    assignFields (← get).separators names gs
    return statusOf isComplete

def listTraps : Run Nat := do
  let traps := (← get).traps.mergeSort fun a b => a.1 ≤ b.1
  print 0 (traps.flatMap fun (n, action) =>
    "trap -- " ++ singleQuoted action ++ ' ' :: Signal.name n ++ ['\n'])

def putTrap (n : Nat) (action : Option Text) : Run Unit := modify fun s =>
  { s with traps := (action.map (n, ·)).toList ++ s.traps.filter fun e => e.1 != n }

def putTraps (action : Option Text) : List Text → Run Nat
  | [] => return 0
  | t :: ts => do
      match Signal.ofText? t with
      | some n => do
          putTrap n action
          putTraps action ts
      | none => do
          write 2 ("trap: " ++ t ++ ": bad trap\n")
          return 1

def isSignalNumber (t : Text) : Bool := t != [] && t.all Char.isDigit && (Signal.ofText? t).isSome

def trap (arguments : List Text) : Run Nat := do
  match ← takeOptions [] arguments with
  | (_, []) => listTraps
  | (_, [t]) => putTraps none [t]
  | (_, action :: signals) =>
      if isSignalNumber action then putTraps none (action :: signals)
      else putTraps (if action = ['-'] then none else some action) signals

def killUsage : Text :=
  "Usage: kill [-s sigspec | -signum | -sigspec] [pid | job]... or\nkill -l [exitstatus]"

def signalSelf (n : Nat) : Run Unit := do
  let s ← get
  match (if s.isSubshell then s.outerTraps else s.traps).find? fun e => e.1 = n with
  | some (_, action) =>
      if n = 9 then throw (.killed n)
      else if action != [] then set { s with pending := s.pending ++ [n] }
  | none => if n ≠ 0 ∧ Signal.isHarmless n = false then throw (.killed n)

def signalProcess (n : Nat) (t : Text) : Run Nat := do
  let s ← get
  if t = Session.processNumber then
    signalSelf n
    return 0
  else if t.head? = some '%' then abort ("No such job: " ++ t)
  else
    let digits := if t.head? = some '-' then t.drop 1 else t
    let number ← readNumber digits
    if s.finished.any fun e => e.1 = number then return 0
    else
      complain "No such process\n"
      return 1

def signalProcesses (n : Nat) : List Text → Run Nat
  | [] => return 0
  | t :: ts => do
      let status ← signalProcess n t
      return max status (← signalProcesses n ts)

def listSignal (t : Text) : Run Nat := do
  let n ← readNumber t
  let number := if 128 < n then n - 128 else n
  if 0 < number ∧ number < 65 then print 0 (Signal.name number ++ ['\n'])
  else
    complain ("invalid signal number or exit status: " ++ t)
    return 2

def listSignals : Run Nat :=
  print 0 (['0', '\n'] ++ (Signal.names.drop 1).flatMap (· ++ ['\n']))

def sendTo (n : Nat) (targets : List Text) : Run Nat := do
  if targets = [] then abort killUsage else signalProcesses n targets

def kill (arguments : List Text) : Run Nat := do
  match arguments with
  | ['-', 'l'] :: [] => listSignals
  | ['-', 'l'] :: ('-' :: c :: _) :: _ => abort ("Illegal option -" ++ [c])
  | ['-', 'l'] :: t :: _ => listSignal t
  | ['-', 's'] :: name :: rest =>
      match Signal.ofText? name with
      | some n => sendTo n rest
      | none => abort ("invalid signal number or name: " ++ name)
  | ['-', '-'] :: rest => sendTo 15 rest
  | ('-' :: c :: more) :: rest =>
      match Signal.ofText? (c :: more) with
      | some n => sendTo n rest
      | none =>
          if c = 's' ∨ c = 'l' then abort killUsage else abort ("Illegal option -" ++ [c])
  | targets => sendTo 15 targets

def waitFor (t : Text) : Run Nat := do
  if t.head? = some '%' then abort ("No such job: " ++ t)
  else
    let number ← readNumber t
    match (← get).finished.find? fun e => e.1 = number with
    | some (_, status) => return status
    | none => return 127

def waitForAll : List Text → Run Nat
  | [] => return 0
  | [t] => waitFor t
  | t :: ts => do
      let _ ← waitFor t
      waitForAll ts

def times : Run Nat := print 0 "0m0.000000s 0m0.000000s\n0m0.000000s 0m0.000000s\n"

def permissionsLeft (bits : Nat) : Text :=
  (if bits / 4 % 2 = 0 then ['r'] else []) ++ (if bits / 2 % 2 = 0 then ['w'] else [])
    ++ if bits % 2 = 0 then ['x'] else []

def maskInWords (mask : Nat) : Text :=
  "u=" ++ permissionsLeft (mask / 64) ++ ",g=" ++ permissionsLeft (mask / 8) ++ ",o="
    ++ permissionsLeft mask ++ ['\n']

def maskInDigits (mask : Nat) : Text :=
  let digits := Nat.toDigits 8 mask
  List.replicate (4 - digits.length) '0' ++ digits ++ ['\n']

def umask (arguments : List Text) : Run Nat := do
  match ← takeOptions ['S'] arguments with
  | (_, t :: _) => do
      if t.head?.any Char.isDigit then
        if t.all fun c => '0' ≤ c && c ≤ '7' then
          let mask := t.foldl (fun n c => 8 * n + (c.toNat - '0'.toNat)) 0
          modify fun s => { s with mask := mask % 512 }
          return 0
        else abort ("Illegal number: " ++ t)
      else if '=' ∈ t ∨ '+' ∈ t ∨ '-' ∈ t then return 0
      else abort ("Illegal mode: " ++ t)
  | (['S'], []) => print 0 (maskInWords (← get).mask)
  | (_, []) => print 0 (maskInDigits (← get).mask)

def resumeJob : Run Nat := abort "job (null) not created under job control"

def table : List (Text × (List Text → Run Nat)) := [
  (":", fun _ => return 0), ("[", bracket), ("alias", makeAliases),
  ("bg", fun _ => resumeJob), ("cd", changeDirectory),
  ("chdir", changeDirectory), ("echo", echo), ("export", exportVariables),
  ("false", fun _ => return 1), ("fg", fun _ => resumeJob), ("getopts", getopts),
  ("jobs", fun _ => return 0),
  ("kill", kill), ("local", makeLocal), ("printf", printf), ("pwd", printDirectory),
  ("read", readVariables), ("readonly", protectVariables), ("set", setArguments),
  ("shift", shift), ("test", test), ("times", fun _ => times), ("trap", trap),
  ("true", fun _ => return 0), ("ulimit", fun _ => print 0 "unlimited\n"), ("umask", umask),
  ("unalias", dropAliases), ("unset", unset), ("wait", waitForAll)]

def find? (name : Text) : Option (List Text → Run Nat) :=
  (table.find? fun e => e.1 = name).map (·.2)

def controlNames : List Text := [
  ".", "break", "command", "continue", "eval", "exec", "exit", "hash", "return", "type"]

def isKnown (name : Text) : Bool := name ∈ controlNames || (find? name).isSome

def isSpecial (name : Text) : Bool := name ∈ specialNames

def takesAssignments (name : Text) : Bool :=
  ["export", "readonly", "local", "alias"].any fun n => n.toList = name

def thingOf? (name : Text) : Run (Option Text) := do
  match ← findAndRemember name with
  | .path t => return if ← isThere (← get) t then some t else none
  | _ => return none

def describe (isShort : Bool) (name : Text) : Run Nat := do
  let s ← get
  let say (short : Text) (rest : String) : Run Nat :=
    print 0 ((if isShort then short else name ++ rest.toList) ++ ['\n'])
  if name ∈ Reader.keywords then say name " is a shell keyword"
  else
    match s.aliases.find? fun a => a.1 = name with
    | some a =>
        if isShort then print 0 ("alias " ++ name ++ ['='] ++ singleQuoted a.2 ++ ['\n'])
        else print 0 (name ++ " is an alias for " ++ a.2 ++ ['\n'])
    | none =>
        if isSpecial name then say name " is a special shell builtin"
        else if s.functions.any fun f => f.1 = name then say name " is a shell function"
        else if isKnown name then say name " is a shell builtin"
        else
          let isTracked := s.found.any fun f => f.1 = name
          match ← thingOf? name, isShort with
          | some t, true => print 0 (t ++ ['\n'])
          | some t, false =>
              print 0 (name ++ (if isTracked then " is a tracked alias for " else " is ") ++ t ++
                ['\n'])
          | none, true => return 127
          | none, false => do
              let _ ← print 0 (name ++ ": not found\n")
              return 127

def describeAll : List Text → Run Nat
  | [] => return 0
  | t :: ts => do
      let status ← describe false t
      return max status (← describeAll ts)

def rememberAll : List Text → Run Nat
  | [] => return 0
  | t :: ts => do
      let isOwn := isKnown t || (← get).functions.any fun f => f.1 = t
      let found ← if isOwn then pure (.path t) else findAndRemember t
      match found with
      | .path _ => rememberAll ts
      | _ => do
          complain (t ++ ": " ++ found.complaint)
          return max 1 (← rememberAll ts)

def hash (arguments : List Text) : Run Nat := do
  match ← takeOptions ['r'] arguments with
  | ('r' :: _, _) => do
      modify fun s => { s with found := [] }
      return 0
  | (_, []) => print 0 ((← get).found.flatMap fun f => f.2 ++ ['\n'])
  | (_, names) => rememberAll names

end Builtin

end ScriptWeave.Shell
