import ScriptWeave.Shell.Utility.Editor.Reader

namespace ScriptWeave.Shell.Utility

namespace Editor

structure Desk where
  space : Text := []
  held : Text := []
  queue : Text := []
  input : List Text
  isTerminated : Bool := true
  number : Nat := 0
  /-- The instructions that are for a range of lines and inside of it, with the line where that
  began. -/
  active : List (Nat × Nat) := []
  wanted : Option Regular := none
  wasReplaced : Bool := false
  output : List Text := []
  isOpen : Bool := false

inductive Ending where
  | done
  | deleted
  | again
  | quit (prints : Bool) (status : Nat)
  | exhausted

namespace Desk

def isAtLast (d : Desk) : Bool := d.input.isEmpty

def endLine (d : Desk) : Desk :=
  if d.isOpen then { d with output := ['\n'] :: d.output, isOpen := false } else d

def emit (d : Desk) (t : Text) : Desk :=
  if t = [] then d else { d.endLine with output := t :: d.endLine.output }

def printLine (d : Desk) (t : Text) : Desk :=
  if d.isAtLast && !d.isTerminated then
    { d.endLine with output := t :: d.endLine.output, isOpen := true }
  else d.emit (t ++ ['\n'])

def flush (d : Desk) : Desk := { (d.emit d.queue) with queue := [] }

def next (d : Desk) : Option (Text × Desk) :=
  match d.input with
  | [] => none
  | line :: input => some (line, { d with input, number := d.number + 1 })

def meant (d : Desk) (w : Wanted) : Regular × Desk :=
  match w.expression with
  | some r => (r, { d with wanted := some r })
  | none => (d.wanted.getD .empty, d)

def isAt (d : Desk) : Address → Bool × Desk
  | .line n => (d.number = n, d)
  | .last => (d.isAtLast, d)
  | .step first distance =>
      (if distance = 0 then d.number = first
        else first ≤ d.number && (d.number - first) % distance = 0, d)
  | .fits w =>
      let (r, d) := d.meant w
      (r.isIn w.caseless d.space, d)
  | .behind _ | .multiple _ => (false, d)

def endsAt (d : Desk) (start : Nat) : Address → Bool × Desk
  | .line n => (n ≤ d.number, d)
  | .behind count => (start + count ≤ d.number, d)
  | .multiple n => (n = 0 || d.number % n = 0, d)
  | a => d.isAt a

def isShort (d : Desk) : Address → Bool
  | .line n => n ≤ d.number
  | .behind count => count = 0
  | .multiple n => n = 0 || d.number % n = 0
  | _ => false

def selects (d : Desk) (index : Nat) (scope : Scope) : Bool × Desk :=
  let (holds, d) := match scope.first, scope.last with
    | none, _ => (true, d)
    | some a, none => d.isAt a
    | some a, some b =>
        match d.active.find? (·.1 = index) with
        | some (_, start) =>
            let (isOver, d) := d.endsAt start b
            (true, if isOver then { d with active := d.active.filter (·.1 ≠ index) } else d)
        | none =>
            let (starts, d) := d.isAt a
            let stays := starts && !d.isShort b
            (starts, if stays then { d with active := (index, d.number) :: d.active } else d)
  (holds != scope.isInverted, d)

def writtenAs (form : LetterCase) (t : Text) : Text :=
  match form with
  | .upper => t.map Char.toUpper
  | .lower => t.map Char.toLower
  | .asIs => t

/-- The text that takes the place of a fit. Letters are written as `form` says, and the first one
behind this place as `once` says. -/
def replacementOf (start stop : Spot) (form : LetterCase) (once : Option LetterCase) :
    List Replacement → Text
  | [] => []
  | .letters next true :: parts => replacementOf start stop form (some next) parts
  | .letters form false :: parts => replacementOf start stop form once parts
  | .char c :: parts =>
      writtenAs (once.getD form) [c] ++ replacementOf start stop form none parts
  | .group n :: parts =>
      let t := if n = 0 then start.upTo stop
        else ((stop.groups.find? (·.1 = n)).map (·.2)).getD []
      writtenAs (once.getD form) (t.take 1) ++ writtenAs form (t.drop 1) ++
        replacementOf start stop form (if t = [] then once else none) parts

def substitute (d : Desk) (s : Substitution) : Desk :=
  let (r, d) := d.meant s.wanted
  let (fits, rest) :=
    r.findAll s.wanted.caseless (2 * d.space.length + 2) false [] { rest := d.space }
  if fits.length < s.first then d
  else
    let pieces := (fits.zipIdx 1).map fun ((lead, start, stop), n) =>
      let isChosen := n = s.first || (s.isGlobal && s.first ≤ n)
      lead ++ if isChosen then replacementOf start stop .asIs none s.replacement else start.upTo stop
    let d := { d with space := pieces.flatten ++ rest, wasReplaced := true }
    if s.prints then d.printLine d.space else d

def firstLine (t : Text) : Text := t.takeWhile (· ≠ '\n')

end Desk

def missingLabel? (script : Script) : Option Text :=
  let labels := script.filterMap fun i => match i.edit with
    | .label name => some name
    | _ => none
  script.findSome? fun i => match i.edit with
    | .branch target _ => if target = [] ∨ target ∈ labels then none else some target
    | _ => none

def placeOf (script : Script) (label : Text) : Nat :=
  if label = [] then script.length
  else script.findIdx fun i => match i.edit with
    | .label name => name = label
    | _ => false

def Edit.apply (script : Script) (quiet : Bool) (index : Nat) (d : Desk) :
    Edit → Desk × Except Ending Nat
  | .substitute s => (d.substitute s, .ok (index + 1))
  | .replaceChars pairs =>
      let space := d.space.map fun c => ((pairs.find? (·.1 = c)).map (·.2)).getD c
      ({ d with space }, .ok (index + 1))
  | .delete => (d, .error .deleted)
  | .deleteFirst =>
      if '\n' ∈ d.space then
        ({ d with space := d.space.drop ((Desk.firstLine d.space).length + 1) }, .error .again)
      else (d, .error .deleted)
  | .print => (d.printLine d.space, .ok (index + 1))
  | .printFirst => (d.emit (Desk.firstLine d.space ++ ['\n']), .ok (index + 1))
  | .next =>
      match d.next with
      | none => (d, .error .exhausted)
      | some (line, d') =>
          let shown := if quiet then d else d.printLine d.space
          let shown := shown.flush
          ({ d' with output := shown.output, isOpen := shown.isOpen, queue := [], space := line },
            .ok (index + 1))
  | .addNext =>
      match d.next with
      | none => (d, .error .exhausted)
      | some (line, d') =>
          let shown := d.flush
          ({ d' with
              output := shown.output
              isOpen := shown.isOpen
              queue := []
              space := d.space ++ '\n' :: line }, .ok (index + 1))
  | .quit prints status => (d, .error (.quit prints status))
  | .number => (d.emit (Text.ofNat d.number ++ ['\n']), .ok (index + 1))
  | .insert t => (d.emit t, .ok (index + 1))
  | .append t => ({ d with queue := d.queue ++ t }, .ok (index + 1))
  | .change t => (if d.active.any (·.1 = index) then d else d.emit t, .error .deleted)
  | .hold => ({ d with held := d.space }, .ok (index + 1))
  | .addToHold => ({ d with held := d.held ++ '\n' :: d.space }, .ok (index + 1))
  | .get => ({ d with space := d.held }, .ok (index + 1))
  | .addHeld => ({ d with space := d.space ++ '\n' :: d.held }, .ok (index + 1))
  | .exchange => ({ d with space := d.held, held := d.space }, .ok (index + 1))
  | .branch target isConditional =>
      if isConditional && !d.wasReplaced then (d, .ok (index + 1))
      else ({ d with wasReplaced := d.wasReplaced && !isConditional }, .ok (placeOf script target))
  | .label _ | .block _ => (d, .ok (index + 1))

def runFrom (script : Script) (quiet : Bool) : Nat → Nat → Desk → Desk × Ending
  | 0, _, d => (d, .exhausted)
  | fuel + 1, index, d =>
      match script[index]? with
      | none => (d, .done)
      | some i =>
          match d.selects index i.scope, i.edit with
          | (true, d), edit =>
              match edit.apply script quiet index d with
              | (d, .ok index) => runFrom script quiet fuel index d
              | (d, .error ending) => (d, ending)
          | (false, d), .block length => runFrom script quiet fuel (index + length + 1) d
          | (false, d), _ => runFrom script quiet fuel (index + 1) d

def stepLimit : Nat := 100000

def runLines (script : Script) (quiet : Bool) : Nat → Desk → Desk × Nat
  | 0, d => (d, 0)
  | fuel + 1, d =>
      let close (prints : Bool) (d : Desk) : Desk :=
        (if prints && !quiet then d.printLine d.space else d).flush
      let goOn (d : Desk) : Desk × Nat :=
        match d.next with
        | some (line, d) => runLines script quiet fuel { d with space := line, wasReplaced := false }
        | none => (d, 0)
      match runFrom script quiet stepLimit 0 d with
      | (d, .done) => goOn (close true d)
      | (d, .deleted) => goOn (close false d)
      | (d, .again) => runLines script quiet fuel (close false d)
      | (d, .exhausted) => (close true d, 0)
      | (d, .quit prints status) => ((close prints d).endLine, status)

def openRanges (script : Script) : List (Nat × Nat) :=
  ((script.zipIdx).filter fun (i, _) => match i.scope.first with
    | some (.line 0) => true
    | _ => false).map fun (_, index) => (index, 0)

def edit (script : Script) (quiet : Bool) (content : Text) : Text × Nat :=
  let lines := linesOf content
  match lines.map fun line => line.filter (· ≠ '\n') with
  | [] => ([], 0)
  | line :: input =>
      let desk : Desk := {
        space := line
        input
        isTerminated := content.getLast? = some '\n'
        number := 1
        active := openRanges script }
      let (d, status) := runLines script quiet (2 * content.length + 2) desk
      (d.output.reverse.flatten, status)

structure Orders where
  quiet : Bool := false
  isExtended : Bool := false
  inPlace : Bool := false
  isSeparate : Bool := false
  scripts : List Text := []
  operands : List Text := []

namespace Orders

def read (o : Orders) : Nat → List Text → Except Text Orders
  | 0, _ => .ok o
  | _ + 1, [] => .ok o
  | fuel + 1, t :: rest =>
      match t with
      | ['-', '-'] => .ok { o with operands := o.operands ++ rest }
      | ['-', 'e'] =>
          match rest with
          | script :: rest => { o with scripts := o.scripts ++ [script] }.read fuel rest
          | [] => .error "option requires an argument -- 'e'"
      | '-' :: 'e' :: script => { o with scripts := o.scripts ++ [script] }.read fuel rest
      | '-' :: 'i' :: _ => { o with inPlace := true }.read fuel rest
      | '-' :: '-' :: _ => .error ("unrecognized option '" ++ t ++ "'")
      | '-' :: letter :: letters =>
          let more := if letters = [] then rest else ('-' :: letters) :: rest
          match letter with
          | 'n' => { o with quiet := true }.read fuel more
          | 'E' | 'r' => { o with isExtended := true }.read fuel more
          | 's' => { o with isSeparate := true }.read fuel more
          | 'u' | 'z' => o.read fuel more
          | c => .error ("invalid option -- '" ++ [c, '\''])
      | t => { o with operands := o.operands ++ [t] }.read fuel rest

def complete (o : Orders) : Option Orders :=
  match o.scripts, o.operands with
  | [], [] => none
  | [], script :: operands => some { o with scripts := [script], operands }
  | _, _ => some o

def script (o : Orders) : Except Text Script :=
  let t := Text.joinWith ['\n'] o.scripts
  match readScript o.isExtended (t.length + 1) false t with
  | .ok (script, _) =>
      match missingLabel? script with
      | some label => .error ("can't find label for jump to `" ++ label ++ ['\''])
      | none => .ok script
  | .error fault =>
      let place := (fault.rest.map fun rest => t.length - rest.length).getD 0
      .error ("-e expression #1, char " ++ Text.ofNat place ++ ": " ++ fault.message)

end Orders

def terminated (t : Text) : Text :=
  if t = [] || t.getLast? = some '\n' then t else t ++ ['\n']

def readContents : List Text → Run (Text × Nat)
  | [] => return ([], 0)
  | file :: files => do
      let (content, status) ← match ← readFile file with
        | .ok content => pure (content, 0)
        | .error cause => do
            let problem : Text := if cause = .isDirectory then "couldn't read " else "can't read "
            let _ ← fail "sed" (problem ++ file ++ ": " ++ cause.reason)
            pure (([] : Text), 2)
      let (more, status') ← readContents files
      return ((if more = [] then content else terminated content) ++ more, max status status')

def editFile (script : Script) (o : Orders) (files : List Text) : Run Nat := do
  let (content, status) ← readContents files
  let (t, status') := Editor.edit script o.quiet content
  match o.inPlace && status = 0, files with
  | true, file :: _ => do
      let _ ← Procedure.ask (.write ((← get).locate file) (toBytes t))
      return status'
  | _, _ => do
      let _ ← emit t
      return max status status'

end Editor

def sed (arguments : List Text) : Run Nat := do
  match Editor.Orders.read {} (2 * arguments.flatten.length + arguments.length + 1) arguments with
  | .error message => fail "sed" message
  | .ok o =>
      match o.complete with
      | none => do
          write 2 "Usage: sed [OPTION]... \x7bscript-only-if-no-other-script\x7d [input-file]...\n"
          return 1
      | some o =>
          match o.script with
          | .error message => fail "sed" message
          | .ok script =>
              if o.inPlace || o.isSeparate then
                return (← o.operands.mapM fun file => Editor.editFile script o [file]).foldl max 0
              else Editor.editFile script o (orInput o.operands)

end ScriptWeave.Shell.Utility
