import ScriptWeave.Shell.Arithmetic
import ScriptWeave.Shell.Format
import ScriptWeave.Shell.Session

namespace ScriptWeave.Shell

namespace Builtin

def optionLetters (allowed : Text) : Text → Run Text
  | [] => return []
  | c :: letters => do
      if c ∈ allowed then return c :: (← optionLetters allowed letters)
      else abort ("Illegal option -" ++ [c])

def takeOptions (allowed : Text) : List Text → Run (Text × List Text)
  | ['-', '-'] :: rest => return ([], rest)
  | ('-' :: c :: letters) :: rest => do
      let found ← optionLetters allowed (c :: letters)
      let (more, rest) ← takeOptions allowed rest
      return (found ++ more, rest)
  | rest => return ([], rest)

def readNumber (t : Text) : Run Nat := do
  if t != [] && t.all Char.isDigit then
    return t.foldl (fun n c => 10 * n + (c.toNat - '0'.toNat)) 0
  else abort ("Illegal number: " ++ t)

def quoteWithin : Nat → Text → Text
  | 0, _ => []
  | fuel + 1, t =>
      let front := t.takeWhile (· ≠ '\'')
      let rest := t.drop front.length
      let marks := rest.takeWhile (· = '\'')
      let after := rest.drop marks.length
      let here : Text := ['\''] ++ front ++ ['\'']
      if marks = [] then here
      else
        let here := here ++ ['"'] ++ marks ++ ['"']
        if after = [] then here else here ++ quoteWithin fuel after

def singleQuoted (t : Text) : Text := quoteWithin (t.length + 1) t

end Builtin

def statusOf (holds : Bool) : Nat := if holds then 0 else 1

namespace Builtin

def print (status : Nat) (t : Text) : Run Nat := do
  if t = [] then return status
  else if ← tryWrite 1 t then return status
  else
    complain ((((← get).commandName).getD []) ++ ": I/O error")
    return 1

def echo (arguments : List Text) : Run Nat :=
  match arguments with
  | ['-', 'n'] :: rest => print 0 (echoTextOpen rest)
  | arguments => print 0 (echoText arguments)

def printFormatted (form : Text) (arguments : List Text) : Run Nat := do
  let (t, problems, stopped) := format form arguments
  problems.forM complain
  stopped.forM complain
  let status ← print (if problems = [] then 0 else 1) t
  match stopped with
  | some _ => do
      setStatus 2
      throw .failed
  | none => return status

def printf (arguments : List Text) : Run Nat := do
  match arguments with
  | [] => abort "usage: printf format [arg ...]"
  | ['-', '-'] :: form :: arguments => printFormatted form arguments
  | ['-', '-'] :: [] => abort "usage: printf format [arg ...]"
  | ['-'] :: arguments => printFormatted ['-'] arguments
  | ('-' :: c :: _) :: _ => abort ("Illegal option -" ++ [c])
  | form :: arguments => printFormatted form arguments

def enterDirectory (p : Path) : Run Unit := do
  let s ← get
  let exportAs (name value : Text) (s : Session) : Session :=
    s.putVariable ⟨name, some value, true, ((s.lookUp? name).map (·.isReadOnly)).getD false⟩
  let before := (s.setting? "PWD").getD (inward s.directory.toText)
  let s := exportAs "OLDPWD" before s
  set (exportAs "PWD" (inward p.toText) { s with directory := p })

def target? (isPhysical : Bool) (t : Text) : Run (Option Path) := do
  let p := ((← get).directory.join (Path.ofText (outward t))).normal
  if ← Procedure.ask (.isDirectory ((← get).locate t)) then
    if isPhysical then return (← Procedure.ask (.resolve p)).toOption
    else return some p
  else return none

def isSearched (t : Text) : Bool :=
  match t with
  | '/' :: _ => false
  | ['.'] | ['.', '.'] => false
  | '.' :: '/' :: _ => false
  | '.' :: '.' :: '/' :: _ => false
  | _ => true

def searchTarget (isPhysical : Bool) (t : Text) : List Text → Run (Option (Path × Bool))
  | [] => do return (← target? isPhysical t).map (·, false)
  | directory :: directories => do
      let candidate := if directory = [] then t else directory ++ ['/'] ++ t
      match ← target? isPhysical candidate with
      | some p => return some (p, directory != [])
      | none => searchTarget isPhysical t directories

def changeDirectory (arguments : List Text) : Run Nat := do
  let (letters, rest) ← takeOptions ['L', 'P'] arguments
  let s ← get
  let t := match rest with
    | [] => (s.setting? "HOME").getD []
    | ['-'] :: _ => (s.setting? "OLDPWD").getD []
    | t :: _ => t
  let t : Text := if t = [] then ['.'] else t
  let others := match s.setting? "CDPATH" with
    | some list => if isSearched t then Text.pieces (· = ':') list else []
    | none => []
  match ← searchTarget (letters.getLast? = some 'P') t others with
  | none => abort ("can't cd to " ++ (rest.headD t))
  | some (p, isShown) => do
      enterDirectory p
      if isShown ∨ rest.head? = some ['-'] then print 0 (inward p.toText ++ ['\n']) else return 0

def printDirectory (arguments : List Text) : Run Nat := do
  let (letters, _) ← takeOptions ['L', 'P'] arguments
  let s ← get
  if letters.getLast? = some 'P' then
    match ← Procedure.ask (.resolve s.directory) with
    | .ok p => print 0 (inward p.toText ++ ['\n'])
    | .error e => print 0 (inward e.path.toText ++ ['\n'])
  else print 0 (inward s.directory.toText ++ ['\n'])

def aliasLine (a : Text × Text) : Text := a.1 ++ ['='] ++ singleQuoted a.2 ++ ['\n']

def aliasOne (t : Text) : Run Nat := do
  let s ← get
  let name := t.takeWhile (· ≠ '=')
  match t.drop name.length, s.aliases.find? fun a => a.1 = t with
  | _ :: value, _ => do
      set { s with aliases := (name, value) :: s.aliases.filter fun a => a.1 != name }
      return 0
  | [], some a => print 0 (aliasLine a)
  | [], none => do
      write 2 ("alias: " ++ t ++ " not found\n")
      return 1

def aliasAll : List Text → Run Nat
  | [] => return 0
  | t :: ts => do
      let status ← aliasOne t
      return max status (← aliasAll ts)

def makeAliases (arguments : List Text) : Run Nat := do
  if arguments = [] then print 0 ((← get).aliases.reverse.flatMap aliasLine)
  else aliasAll arguments

def dropAlias (name : Text) : Run Nat := do
  let s ← get
  if s.aliases.any fun a => a.1 = name then
    set { s with aliases := s.aliases.filter fun a => a.1 != name }
    return 0
  else
    write 2 ("unalias: " ++ name ++ " not found\n")
    return 1

def dropAliases (arguments : List Text) : Run Nat := do
  match ← takeOptions ['a'] arguments with
  | ('a' :: _, _) => do
      modify fun s => { s with aliases := [] }
      return 0
  | (_, names) => return (← names.mapM dropAlias).foldl max 0

end Builtin

inductive Comparison where
  | same
  | different
  | before
  | after
  | number (holds : Int → Int → Bool)
  | age
  | sameFile

/-- What a word of a condition means where it is an operator. -/
inductive ConditionSign where
  | unary (kind : Char)
  | binary (c : Comparison)
  | not
  | both
  | either
  | opening
  | closing

namespace Condition

def unaryKinds : Text := "rwxefdcbpugkstznhOGLS"

def signs : List (Text × ConditionSign) := [
  ("=", .binary .same), ("!=", .binary .different), ("<", .binary .before),
  (">", .binary .after), ("-eq", .binary (.number fun n m => n = m)),
  ("-ne", .binary (.number fun n m => n ≠ m)), ("-lt", .binary (.number fun n m => n < m)),
  ("-le", .binary (.number fun n m => n ≤ m)), ("-gt", .binary (.number fun n m => m < n)),
  ("-ge", .binary (.number fun n m => m ≤ n)), ("-nt", .binary .age), ("-ot", .binary .age),
  ("-ef", .binary .sameFile), ("!", .not), ("-a", .both), ("-o", .either), ("(", .opening),
  (")", .closing)]

def sign? (t : Text) : Option ConditionSign :=
  match t with
  | ['-', kind] =>
      if kind ∈ unaryKinds then some (.unary kind) else (signs.find? fun e => e.1 = t).map (·.2)
  | t => (signs.find? fun e => e.1 = t).map (·.2)

def binary? (t : Text) : Option Comparison :=
  match sign? t with
  | some (.binary c) => some c
  | _ => none

/-- Whether a unary operator is an operand, by the words behind it: it is if there are none, and if
the next one is a binary operator with an operand of its own. -/
def isOperand : List Text → Bool
  | [] => true
  | [_] => false
  | t :: _ :: _ => (binary? t).isSome

def signAt? : List Text → Option ConditionSign
  | [] => none
  | t :: rest =>
      match sign? t with
      | some (.unary kind) => if isOperand rest then none else some (.unary kind)
      | some .opening => if rest.isEmpty then none else some .opening
      | found => found

def complaint (operator message : Text) : Text :=
  if operator = [] then message else operator ++ ": " ++ message

def number (t : Text) : Run Int := do
  match Arithmetic.integer? (some 10) t with
  | some n => return n
  | none => abort ("Illegal number: " ++ t)

def checkFile (kind : Char) (t : Text) : Run Bool := do
  let s ← get
  let p := s.locate t
  if t = [] then return false
  else
    let isPresent := (← Procedure.ask (.isPresent p)).toOption.getD false
    let isDirectory ← Procedure.ask (.isDirectory p)
    match kind with
    | 'd' => return isDirectory
    | 'f' => return isPresent && !isDirectory && t != "/dev/null".toList
    | 'c' => return t = "/dev/null".toList
    | 'x' => return isDirectory || (← Procedure.ask (.isRunnable p))
    | 's' => do
        match ← Procedure.ask (.read p) with
        | .ok content => return !content.isEmpty
        | .error _ => return isDirectory
    | 'h' | 'L' => Procedure.ask (.isLink p)
    | _ => return isPresent && (['r', 'w', 'e', 'O', 'G'].contains kind)

def unary (kind : Char) (t : Text) : Run Bool := do
  if kind = 'z' then return t = []
  else if kind = 'n' then return t != []
  else if kind = 't' then do
    let _ ← number t
    return false
  else checkFile kind t

def resolved (t : Text) : Run (Option Path) := do
  let p := (← get).locate t
  match ← Procedure.ask (.isPresent p), ← Procedure.ask (.resolve p) with
  | .ok true, .ok p => return some p
  | _, _ => return none

def compare (a b : Text) : Comparison → Run Bool
  | .same => return a = b
  | .different => return a ≠ b
  | .before => return !Text.isOrdered b a
  | .after => return !Text.isOrdered a b
  | .number holds => do
      let n ← number a
      return holds n (← number b)
  | .age => return false
  | .sameFile => do
      let p ← resolved a
      return p.isSome && p = (← resolved b)

mutual

/-- Reads a condition and returns what it comes to, with the words from its last one on. Nothing is
left out: both sides of an operator are always looked at. -/
def either (fuel : Nat) (words : List Text) : Run (Bool × List Text) :=
  match fuel with
  | 0 => return (false, words)
  | fuel + 1 => do
      let (a, last) ← both fuel words
      match signAt? (last.drop 1) with
      | some .either => do
          let (b, last) ← either fuel (last.drop 2)
          return (a || b, last)
      | _ => return (a, last)

def both (fuel : Nat) (words : List Text) : Run (Bool × List Text) :=
  match fuel with
  | 0 => return (false, words)
  | fuel + 1 => do
      let (a, last) ← negation fuel words
      match signAt? (last.drop 1) with
      | some .both => do
          let (b, last) ← both fuel (last.drop 2)
          return (a && b, last)
      | _ => return (a, last)

def negation (fuel : Nat) (words : List Text) : Run (Bool × List Text) :=
  match fuel with
  | 0 => return (false, words)
  | fuel + 1 => do
      match signAt? words with
      | some .not => do
          let (b, last) ← negation fuel (words.drop 1)
          return (!b, if words.length = 1 then words else last)
      | _ => primary fuel words

def primary (fuel : Nat) (words : List Text) : Run (Bool × List Text) :=
  match fuel with
  | 0 => return (false, words)
  | fuel + 1 =>
      match words with
      | [] => return (false, [])
      | t :: rest => do
          match signAt? words with
          | some .opening => do
              match signAt? rest with
              | some .closing => return (false, rest)
              | _ => do
                  let (b, last) ← either fuel rest
                  match signAt? (last.drop 1) with
                  | some .closing => return (b, last.drop 1)
                  | _ => abort "closing paren expected"
          | some (.unary kind) => do
              match rest with
              | [] => abort (complaint t "argument expected")
              | operand :: _ => return (← unary kind operand, rest)
          | _ => do
              match rest with
              | operator :: operands =>
                  match binary? operator, operands with
                  | some _, [] => abort (complaint operator "argument expected")
                  | some c, operand :: _ => return (← compare t operand c, operands)
                  | none, _ => return (t != [], words)
              | [] => return (t != [], words)

end

def whole (words : List Text) : Run Bool := do
  let (b, last) ← either (8 * words.length + 8) words
  match last with
  | t :: _ :: _ => abort (complaint t "unexpected operator")
  | _ => return b

/-- What words come to. Up to four of them are read by their number, and there a mark of negation in
front counts once, however often it stands there. -/
def hold (isNegated : Bool) : List Text → Run Bool
  | [] => return isNegated
  | [a, operator, b] => do
      match binary? operator with
      | some c => return (← compare a b c) != isNegated
      | none =>
          if a = ['('] ∧ b = [')'] then return (← whole [operator]) != isNegated
          else if a = ['!'] then hold true [operator, b]
          else return (← whole [a, operator, b]) != isNegated
  | [a, b, c, d] => do
      if a = ['('] ∧ d = [')'] then return (← whole [b, c]) != isNegated
      else if a = ['!'] then hold true [b, c, d]
      else return (← whole [a, b, c, d]) != isNegated
  | words => do return (← whole words) != isNegated

end Condition

namespace Builtin

def test (arguments : List Text) : Run Nat := do return statusOf (← Condition.hold false arguments)

def bracket (arguments : List Text) : Run Nat := do
  if arguments.getLast? = some [']'] then test arguments.dropLast
  else abort "missing ]"

end Builtin

end ScriptWeave.Shell
