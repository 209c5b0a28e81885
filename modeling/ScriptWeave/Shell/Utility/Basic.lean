import ScriptWeave.Shell.Builtin.Basic
import ScriptWeave.Text.Lines

namespace ScriptWeave.Shell.Utility

def fail (name message : Text) : Run Nat := do
  write 2 (name ++ ": " ++ message ++ ['\n'])
  return 1

def misuse (name message : Text) : Run Nat := do
  let _ ← fail name message
  write 2 ("Try '" ++ name ++ " --help' for more information.\n")
  return 1

def quotedName (t : Text) : Text := ['\''] ++ t ++ ['\'']

def missingOperand (name : Text) : Run Nat := misuse name "missing operand"

def extraOperand (name t : Text) : Run Nat := misuse name ("extra operand " ++ quotedName t)

def emit (t : Text) : Run Nat := do
  if t = [] then return 0
  else return if ← tryWrite 1 t then 0 else 1

def readInput : Run (Except FileCause Text) := do
  match ← unread 0 with
  | .ok t => do
      consume 0 t.length
      return .ok t
  | .error cause => return .error cause

def readFile (t : Text) : Run (Except FileCause Text) := do
  if t = ['-'] then readInput
  else
    match ← Procedure.ask (.read ((← get).locate t)) with
    | .ok content => return .ok (ofBytes content)
    | .error e => return .error e.cause

def forFiles (name : Text) (use : Text → Text → Run Nat) : List Text → Run Nat
  | [] => return 0
  | t :: ts => do
      let status ← match ← readFile t with
        | .ok content => use t content
        | .error cause => fail name (t ++ ": " ++ cause.reason)
      return max status (← forFiles name use ts)

def orInput (files : List Text) : List Text := if files = [] then [['-']] else files

def readAll (name : Text) : List Text → Run (Text × Nat)
  | [] => return ([], 0)
  | t :: ts => do
      let (here, status) ← match ← readFile t with
        | .ok content => pure (content, 0)
        | .error cause => do pure (([] : Text), ← fail name (t ++ ": " ++ cause.reason))
      let (more, status') ← readAll name ts
      return (here ++ more, max status status')

def linesOf : Text → List Text
  | [] => []
  | '\n' :: rest => ['\n'] :: linesOf rest
  | c :: rest =>
      match linesOf rest with
      | [] => [[c]]
      | line :: lines => (c :: line) :: lines

def number? (t : Text) : Option Nat :=
  if t != [] && t.all Char.isDigit then
    some (t.foldl (fun n c => 10 * n + (c.toNat - '0'.toNat)) 0)
  else none

structure OptionTable where
  flags : Text := []
  valued : Text := []
  names : List (Text × Char) := []
  failure : Nat := 1

inductive OptionFault where
  | unknownLetter (c : Char)
  | unknownName (t : Text)
  | missingValue (c : Char)
  | unwantedValue (name : Text)
  deriving DecidableEq, Repr

def OptionFault.message : OptionFault → Text
  | .unknownLetter c => "invalid option -- '" ++ [c, '\'']
  | .unknownName t => "unrecognized option '" ++ t ++ "'"
  | .missingValue c => "option requires an argument -- '" ++ [c, '\'']
  | .unwantedValue name => "option '" ++ name ++ "' doesn't allow an argument"

/-- The options that were given, with the values of those that take one, and the other arguments. -/
structure Options where
  given : List (Char × Text) := []
  operands : List Text := []
  deriving DecidableEq, Repr

namespace Options

def has (o : Options) (letter : Char) : Bool := o.given.any fun g => g.1 = letter

def hasAny (o : Options) (letters : Text) : Bool := letters.any o.has

def value? (o : Options) (letter : Char) : Option Text :=
  (o.given.reverse.find? fun g => g.1 = letter).map (·.2)

def withOption (letter : Char) (value : Text) (o : Options) : Options :=
  { o with given := (letter, value) :: o.given }

def readName (table : OptionTable) (t : Text) (rest : List Text) :
    Except OptionFault (Char × Text × List Text) :=
  let name := t.takeWhile (· ≠ '=')
  match table.names.find? fun n => n.1 = name.drop 2, t.drop name.length, rest with
  | none, _, _ => .error (.unknownName t)
  | some (_, c), '=' :: value, rest =>
      if c ∈ table.valued then .ok (c, value, rest) else .error (.unwantedValue name)
  | some (_, c), _, value :: rest =>
      if c ∈ table.valued then .ok (c, value, rest) else .ok (c, [], value :: rest)
  | some (_, c), _, [] =>
      if c ∈ table.valued then .error (.missingValue c) else .ok (c, [], [])

def read (table : OptionTable) : Nat → List Text → Except OptionFault Options
  | 0, _ => .ok {}
  | _ + 1, [] => .ok {}
  | _ + 1, ['-', '-'] :: rest => .ok { operands := rest }
  | fuel + 1, ('-' :: '-' :: name) :: rest => do
      let (c, value, rest) ← readName table ('-' :: '-' :: name) rest
      return (← read table fuel rest).withOption c value
  | fuel + 1, ('-' :: c :: letters) :: rest =>
      if c ∈ table.flags then do
        let rest := if letters = [] then rest else ('-' :: letters) :: rest
        return (← read table fuel rest).withOption c []
      else if c ∈ table.valued then
        match letters, rest with
        | [], [] => .error (.missingValue c)
        | [], value :: rest => return (← read table fuel rest).withOption c value
        | letters, rest => return (← read table fuel rest).withOption c letters
      else .error (.unknownLetter c)
  | fuel + 1, t :: rest => do
      let o ← read table fuel rest
      return { o with operands := t :: o.operands }

def ofArguments (table : OptionTable) (arguments : List Text) : Except OptionFault Options :=
  read table (arguments.flatten.length + arguments.length + 1) arguments

end Options

def withOptions (name : Text) (table : OptionTable) (run : Options → Run Nat)
    (arguments : List Text) : Run Nat := do
  match Options.ofArguments table arguments with
  | .ok o => run o
  | .error fault => do
      let _ ← misuse name fault.message
      return table.failure

end ScriptWeave.Shell.Utility
