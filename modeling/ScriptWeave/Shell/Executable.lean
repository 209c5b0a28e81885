import ScriptWeave.Shell.Builtin.Basic
import ScriptWeave.Shell.Utility.Calculation
import ScriptWeave.Shell.Utility.Content
import ScriptWeave.Shell.Utility.Editor
import ScriptWeave.Shell.Utility.File
import ScriptWeave.Shell.Utility.Search

namespace ScriptWeave.Shell

namespace Utility

def echoOptions (isOpen escapes : Bool) : List Text → Bool × Bool × List Text
  | ('-' :: c :: letters) :: rest =>
      let all := c :: letters
      if all.all (['n', 'e', 'E'].contains ·) then
        let last := (all.filter (· ≠ 'n')).getLast?
        echoOptions (isOpen || 'n' ∈ all) (match last with
          | some 'e' => true
          | some _ => false
          | none => escapes) rest
      else (isOpen, escapes, ('-' :: c :: letters) :: rest)
  | rest => (isOpen, escapes, rest)

def echo (arguments : List Text) : Run Nat :=
  let (isOpen, escapes, words) := echoOptions false false arguments
  if escapes then emit (if isOpen then echoTextOpen words else echoText words)
  else emit (Text.joinWith [' '] words ++ if isOpen then [] else ['\n'])

def sleep : List Text → Run Nat :=
  withOptions "sleep" {} fun o =>
    match o.operands, o.operands.find? fun t => (number? (t.filter (· ≠ '.'))).isNone with
    | [], _ => missingOperand "sleep"
    | _, some t => misuse "sleep" ("invalid time interval " ++ quotedName t)
    | _, none => return 0

def fileTable : List (Text × (List Text → Run Nat)) := [
  ("basename", basename), ("cat", cat), ("chmod", chmod), ("cp", cp), ("dirname", dirname),
  ("ln", ln), ("ls", ls), ("mkdir", mkdir), ("mv", mv), ("rm", rm), ("rmdir", rmdir),
  ("touch", touch)]

def contentTable : List (Text × (List Text → Run Nat)) := [
  ("cut", cut), ("egrep", searchLines ['E']), ("fgrep", searchLines ['F']), ("grep", grep),
  ("head", head), ("sed", sed), ("sort", sort), ("tail", tail), ("tee", tee), ("tr", tr),
  ("uniq", uniq), ("wc", wc)]

def otherTable : List (Text × (List Text → Run Nat)) := [
  ("[", Builtin.bracket), ("echo", echo), ("expr", expr), ("false", fun _ => return 1),
  ("printf", Builtin.printf), ("pwd", Builtin.printDirectory), ("seq", seq),
  ("sleep", sleep), ("test", Builtin.test), ("true", fun _ => return 0)]

def table : List (Text × (List Text → Run Nat)) := fileTable ++ contentTable ++ otherTable

def find? (name : Text) : Option (List Text → Run Nat) :=
  (table.find? fun e => e.1 = name).map (·.2)

end Utility

/-- A program with the name that it is started under and its arguments. -/
structure Invocation where
  program : Text
  name : Text
  arguments : List Text
  deriving DecidableEq, Repr

namespace Executable

def programDirectories : List Path := ["/bin", "/usr/bin"]

def launchers : List Text := ["sh".toList, "dash".toList, "bash".toList, "env".toList]

def programNames : List Text := launchers ++ Utility.table.map (·.1)

def programAt? (p : Path) : Option Text :=
  if p.parent ∈ programDirectories ∧ p.name ∈ programNames then some p.name else none

def lineLimit : Nat := 255

def isBlank (c : Char) : Bool := c = ' ' || c = '\t'

def interpreter? (content : Text) : Option (Text × List Text) :=
  match Text.afterPrefix? "#!" content with
  | none => none
  | some rest =>
      let seen := rest.take (lineLimit - 2)
      let line := seen.takeWhile (· ≠ '\n')
      let isWhole := line.length < seen.length || seen.length = rest.length
      let trimmed := (line.reverse.dropWhile isBlank).reverse.dropWhile isBlank
      let name := trimmed.takeWhile fun c => !isBlank c && c ≠ '\x00'
      let argument := (trimmed.drop name.length).dropWhile isBlank
      if name = [] || (!isWhole && (line.dropWhile isBlank).length = name.length) then none
      else some (name, if argument = [] then [] else [argument])

def depthLimit : Nat := 5

/-- The program that runs once a file is started, and what it is given. A program that is not started
by way of a script is told the name that was asked for. -/
def find (directory : Path) : Nat → Text → Text → List Text → Attempt FileCause Invocation
  | 0, _, _, _ => throw .tooManyLinks
  | depth + 1, called, t, arguments => do
      let p := directory.join (Path.ofWritten (outward t))
      let resolved ← Procedure.ask (.resolve p)
      match resolved.toOption.bind programAt? with
      | some program => return ⟨program, called, arguments⟩
      | none => do
          let content ← (Attempt.read p).rephrase fun e =>
            if e.cause = .isDirectory then .denied else e.cause
          unless ← Procedure.ask (.isRunnable p) do throw .denied
          match interpreter? (ofBytes content) with
          | none => throw .notExecutable
          | some (name, argument) => find directory depth name name (argument ++ t :: arguments)

end Executable

end ScriptWeave.Shell
