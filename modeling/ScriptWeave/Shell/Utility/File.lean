import ScriptWeave.Directories
import ScriptWeave.Shell.Utility.Basic

namespace ScriptWeave.Shell.Utility

def finish (name what : Text) (result : Except FileError Unit) : Run Nat :=
  match result with
  | .ok () => return 0
  | .error e => fail name (what ++ ": " ++ e.cause.reason)

def forNames (act : Text → Run Nat) (names : List Text) : Run Nat := do
  return (← names.mapM act).foldl max 0

def mkdir : List Text → Run Nat :=
  withOptions "mkdir" { flags := "pvZ", valued := "m", names := [("parents", 'p')] } fun o => do
    if o.operands = [] then missingOperand "mkdir"
    else
      forNames (fun t => do
        let p := (← get).locate t
        let result ←
          if o.has 'p' then
            if ← Procedure.ask (.isDirectory p) then pure (.ok ())
            else (Directories.ensure p).run
          else Procedure.ask (.makeDirectory p)
        finish "mkdir" ("cannot create directory " ++ quotedName t) result) o.operands

def rmdir : List Text → Run Nat :=
  withOptions "rmdir" { flags := "pv" } fun o => do
    if o.operands = [] then missingOperand "rmdir"
    else
      forNames (fun t => do
        finish "rmdir" ("failed to remove " ++ quotedName t)
          (← Procedure.ask (.removeDirectory ((← get).locate t)))) o.operands

def removeOne (o : Options) (t : Text) : Run Nat := do
  let p := (← get).locate t
  let isLink ← Procedure.ask (.isLink p)
  let isDirectory := !isLink && (← Procedure.ask (.isDirectory p))
  let result ←
    if isDirectory && o.hasAny ['r', 'R'] then
      Procedure.ask (.removeTree ((← Procedure.ask (.resolve p)).toOption.getD p))
    else if isDirectory && o.has 'd' then Procedure.ask (.removeDirectory p)
    else Procedure.ask (.removeFile p)
  match result with
  | .error ⟨.missing, _⟩ =>
      if o.has 'f' then return 0
      else fail "rm" ("cannot remove " ++ quotedName t ++ ": " ++ FileCause.missing.reason)
  | result => finish "rm" ("cannot remove " ++ quotedName t) result

def rm : List Text → Run Nat :=
  let table : OptionTable := {
    flags := "dfirRvI"
    names := [("force", 'f'), ("recursive", 'r'), ("dir", 'd')] }
  withOptions "rm" table fun o => do
    if o.operands = [] then if o.has 'f' then return 0 else missingOperand "rm"
    else forNames (removeOne o) o.operands

def touch : List Text → Run Nat :=
  withOptions "touch" { flags := "acfhm", valued := "drt" } fun o => do
    if o.operands = [] then misuse "touch" "missing file operand"
    else
      forNames (fun t => do
        let p := (← get).locate t
        let isPresent := (← Procedure.ask (.isPresent p)).toOption.getD false
        if isPresent || o.has 'c' then return 0
        else finish "touch" ("cannot touch " ++ quotedName t) (← Procedure.ask (.append p [])))
        o.operands

def targetOf (source target : Text) : Run Text := do
  if ← Procedure.ask (.isDirectory ((← get).locate target)) then
    let directory := if target.getLast? = some '/' then target else target ++ ['/']
    return directory ++ inward (Path.ofText (outward source)).name
  else return target

def copyFile (source target : Text) : Run Nat := do
  let s ← get
  match ← Procedure.ask (.read (s.locate source)) with
  | .error e => fail "cp" ("cannot stat " ++ quotedName source ++ ": " ++ e.cause.reason)
  | .ok content => do
      let isNew := !(← Procedure.ask (.isPresent (s.locate target))).toOption.getD false
      let result ← Procedure.ask (.write (s.locate target) content)
      if isNew ∧ (← Procedure.ask (.isRunnable (s.locate source))) then
        let _ ← Procedure.ask (.mark (s.locate target) true)
      finish "cp" ("cannot create regular file " ++ quotedName target) result

def copyTree (isRecursive : Bool) : Nat → Text → Text → Run Nat
  | 0, source, _ => fail "cp" (quotedName source ++ ": " ++ FileCause.nameTooLong.reason)
  | depth + 1, source, target => do
      let s ← get
      if !(← Procedure.ask (.isDirectory (s.locate source))) then copyFile source target
      else if !isRecursive then
        fail "cp" ("-r not specified; omitting directory " ++ quotedName source)
      else
        let names := ((← Procedure.ask (.list (s.locate source))).toOption.getD []).map inward
        let status ←
          if ← Procedure.ask (.isDirectory (s.locate target)) then pure 0
          else do
            finish "cp" ("cannot create directory " ++ quotedName target)
              (← Procedure.ask (.makeDirectory (s.locate target)))
        if status ≠ 0 then return status
        else
          forNames (fun name => copyTree isRecursive depth (source ++ '/' :: name)
            (target ++ '/' :: name)) (names.mergeSort Text.isOrdered)

def copyOne (o : Options) (target source : Text) : Run Nat := do
  copyTree (o.hasAny ['r', 'R', 'a']) 64 source (← targetOf source target)

def moveOne (_ : Options) (target source : Text) : Run Nat := do
  let s ← get
  let target ← targetOf source target
  match ← Procedure.ask (.move (s.locate source) (s.locate target)) with
  | .error ⟨.missing, _⟩ =>
      fail "mv" ("cannot stat " ++ quotedName source ++ ": " ++ FileCause.missing.reason)
  | .error ⟨.invalid, _⟩ =>
      fail "mv" ("cannot move " ++ quotedName source ++ " to a subdirectory of itself, " ++
        quotedName target)
  | .error ⟨.notEmpty, _⟩ =>
      fail "mv" ("cannot overwrite " ++ quotedName target ++ ": " ++ FileCause.notEmpty.reason)
  | .error ⟨.notDirectory, _⟩ =>
      fail "mv" ("cannot overwrite non-directory " ++ quotedName target ++ " with directory " ++
        quotedName source)
  | result => finish "mv" ("cannot move " ++ quotedName source ++ " to " ++ quotedName target) result

def linkOne (o : Options) (target source : Text) : Run Nat := do
  let s ← get
  let target ← targetOf source target
  if o.has 'f' then let _ ← Procedure.ask (.removeFile (s.locate target))
  if o.has 's' then
    finish "ln" ("failed to create symbolic link " ++ quotedName target)
      (← Procedure.ask (.makeLink (s.locate target) (outward source)))
  else if ← Procedure.ask (.isDirectory (s.locate source)) then
    fail "ln" (source ++ ": hard link not allowed for directory")
  else if !(← Procedure.ask (.isPresent (s.locate source))).toOption.getD false then
    fail "ln" ("failed to access " ++ quotedName source ++ ": " ++ FileCause.missing.reason)
  else if (← Procedure.ask (.isPresent (s.locate target))).toOption.getD false then
    fail "ln" ("failed to create hard link " ++ quotedName target ++ ": " ++ FileCause.exists.reason)
  else copyFile source target

def forSources (name : Text) (act : Options → Text → Text → Run Nat) (o : Options) : Run Nat := do
  match o.operands.reverse with
  | target :: source :: [] => act o target source
  | target :: sources => do
      if sources = [] then
        if name = "ln".toList then act o ['.'] target
        else misuse name ("missing destination file operand after " ++ quotedName target)
      else
        let p := (← get).locate target
        if ← Procedure.ask (.isDirectory p) then forNames (act o target) sources.reverse
        else
          let isPresent := (← Procedure.ask (.isPresent p)).toOption.getD false
          let cause : FileCause := if isPresent then .notDirectory else .missing
          fail name ("target " ++ quotedName target ++ ": " ++ cause.reason)
  | [] => misuse name "missing file operand"

def cp : List Text → Run Nat :=
  let table : OptionTable := {
    flags := "abdfHilLnpPrRsTuvxZ"
    valued := "St"
    names := [("recursive", 'r'), ("archive", 'a'), ("force", 'f')] }
  withOptions "cp" table (forSources "cp" copyOne)

def mv : List Text → Run Nat :=
  withOptions "mv" { flags := "bfinTuvZ", valued := "St" } (forSources "mv" moveOne)

def ln : List Text → Run Nat :=
  let table : OptionTable := {
    flags := "bdfFiLnPrsTv"
    valued := "St"
    names := [("symbolic", 's'), ("force", 'f')] }
  withOptions "ln" table (forSources "ln" linkOne)

def ordered (o : Options) (names : List Text) : List Text :=
  let names := names.mergeSort Text.isOrdered
  if o.has 'r' then names.reverse else names

def wantedNames (o : Options) (names : List Text) : List Text :=
  let shown := names.filter fun t => o.hasAny ['a', 'A'] || t.head? != some '.'
  ordered o (shown ++ if o.has 'a' then [['.'], ['.', '.']] else [])

def shownName (o : Options) (directory name : Text) : Run Text := do
  let p := (← get).locate (directory ++ name)
  if !o.hasAny ['F', 'p'] then return name
  else if o.has 'F' && (← Procedure.ask (.isLink p)) then return name ++ ['@']
  else if ← Procedure.ask (.isDirectory p) then return name ++ ['/']
  else if o.has 'F' && (← Procedure.ask (.isRunnable p)) then return name ++ ['*']
  else return name

def emitNames (o : Options) (directory : Text) (names : List Text) : Run Nat := do
  let shown ← names.mapM (shownName o directory)
  emit (shown.flatMap (· ++ ['\n']))

def listDirectories (o : Options) (isTitled isFirst : Bool) : List Text → Run Nat
  | [] => return 0
  | t :: ts => do
      let names := ((← Procedure.ask (.list ((← get).locate t))).toOption.getD []).map inward
      let title : Text := if isTitled then t ++ [':', '\n'] else []
      let _ ← emit (if isFirst then title else '\n' :: title)
      let _ ← emitNames o (t ++ ['/']) (wantedNames o names)
      listDirectories o isTitled false ts

def presentOnes (names : List Text) : Run (List Text) :=
  names.filterM fun t => do
    let p := (← get).locate t
    if (← Procedure.ask (.isPresent p)).toOption.getD false || (← Procedure.ask (.isLink p)) then
      return true
    else
      let _ ← fail "ls" ("cannot access " ++ quotedName t ++ ": " ++ FileCause.missing.reason)
      return false

def ls : List Text → Run Nat :=
  let table : OptionTable := {
    flags := "aAbBcCdfFgGhHiklLmnNopqQrRsStuUvxXZ1"
    valued := "ITw"
    names := [("all", 'a'), ("almost-all", 'A'), ("directory", 'd'), ("reverse", 'r')]
    failure := 2 }
  withOptions "ls" table fun o => do
    let names := if o.operands = [] then [['.']] else o.operands
    let present ← presentOnes names
    let directories ←
      if o.has 'd' then pure []
      else present.filterM fun t => do return ← Procedure.ask (.isDirectory ((← get).locate t))
    let files := present.filter (· ∉ directories)
    let _ ← emitNames o [] (ordered o files)
    let _ ← listDirectories o (1 < names.length) (files = []) (ordered o directories)
    return if present.length = names.length then 0 else 2

def stripSlashes (t : Text) : Text :=
  match t.reverse.dropWhile (· = '/') with
  | [] => if t = [] then [] else ['/']
  | rest => rest.reverse

def lastName (t : Text) : Text := (t.reverse.takeWhile (· ≠ '/')).reverse

def baseName (ending t : Text) : Text :=
  let stripped := stripSlashes t
  let name := if stripped = ['/'] then stripped else lastName stripped
  if ending.length < name.length && ending.isSuffixOf name then
    name.take (name.length - ending.length)
  else name

def frontOf (t : Text) : Text :=
  let stripped := stripSlashes t
  if '/' ∈ stripped then
    stripSlashes (stripped.take (stripped.length - (lastName stripped).length))
  else ['.']

def emitEach (o : Options) (texts : List Text) : Run Nat :=
  emit (texts.flatMap (· ++ [if o.has 'z' then Char.ofNat 0 else '\n']))

def basename : List Text → Run Nat :=
  let table : OptionTable := {
    flags := "az"
    valued := ['s']
    names := [("multiple", 'a'), ("suffix", 's'), ("zero", 'z')] }
  withOptions "basename" table fun o =>
    match o.operands with
    | [] => missingOperand "basename"
    | t :: rest =>
        if o.hasAny ['a', 's'] then
          emitEach o (o.operands.map (baseName ((o.value? 's').getD [])))
        else
          match rest with
          | _ :: extra :: _ => extraOperand "basename" extra
          | rest => emitEach o [baseName (rest.headD []) t]

def dirname : List Text → Run Nat :=
  withOptions "dirname" { flags := ['z'], names := [("zero", 'z')] } fun o =>
    if o.operands = [] then missingOperand "dirname" else emitEach o (o.operands.map frontOf)

/-- Whether a file can be run once a part of a mode was applied to it. Who may run it is not told
apart, so that only what is taken from all is taken. -/
def applyMode (clause : Text) (runnable : Bool) : Option Bool :=
  let who := clause.takeWhile (['u', 'g', 'o', 'a'].contains ·)
  let coversAll := who = [] || 'a' ∈ who || ['u', 'g', 'o'].all (who.contains ·)
  match clause.drop who.length with
  | sign :: letters =>
      let grants := 'x' ∈ letters || ('X' ∈ letters && runnable)
      if !letters.all (['r', 'w', 'x', 'X', 's', 't'].contains ·) then none
      else if sign = '+' then some (runnable || grants)
      else if sign = '-' then some (runnable && !(grants && coversAll))
      else if sign = '=' then some (grants || (runnable && !coversAll))
      else none
  | [] => none

def modeOf (mode : Text) (runnable : Bool) : Option Bool :=
  if mode != [] && mode.all (fun c => '0' ≤ c && c ≤ '7') then
    some ((mode.reverse.take 3).any fun c => c.toNat % 2 = 1)
  else (Text.pieces (· = ',') mode).foldl (fun r clause => r.bind (applyMode clause)) (some runnable)

def changeMode (mode t : Text) : Run Nat := do
  let p := (← get).locate t
  match modeOf mode (← Procedure.ask (.isRunnable p)) with
  | none => misuse "chmod" ("invalid mode: " ++ quotedName mode)
  | some runnable =>
      finish "chmod" ("cannot access " ++ quotedName t) (← Procedure.ask (.mark p runnable))

def chmod (arguments : List Text) : Run Nat := do
  let isOption (t : Text) : Bool := t = "--".toList ||
    (t.head? = some '-' && (t.drop 1).all (['R', 'f', 'v', 'c'].contains ·))
  match arguments.filter (!isOption ·) with
  | [] => missingOperand "chmod"
  | [mode] => misuse "chmod" ("missing operand after " ++ quotedName mode)
  | mode :: names => forNames (changeMode mode) names

end ScriptWeave.Shell.Utility
