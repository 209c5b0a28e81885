import ScriptWeave.Diagnostic
import ScriptWeave.Text.Lines
import ScriptWeave.Text.Number

namespace ScriptWeave.CompilerOutput

open Text

def readPair? (t : Text) : Option ((Text × Text) × Text) := do
  let (first, rest) ← readDigits? t
  let rest ← afterPrefix? [','] rest
  let (second, rest) ← readDigits? rest
  return ((first, second), rest)

def afterRangeEnd? (t : Text) : Option Text :=
  match afterPrefix? [')'] t with
  | some rest => some rest
  | none => do
      let rest ← afterPrefix? [','] t
      let (_, rest) ← readPair? rest
      afterPrefix? [')'] rest

def afterColon? (t : Text) : Option Text :=
  (afterPrefix? [':'] (trimStart t)).map trimStart

def readSeverity? (t : Text) : Option (Severity × Text) :=
  match afterPrefix? "error" t, afterPrefix? "warning" t, afterPrefix? "info" t with
  | some rest, _, _ => some (.error, rest)
  | _, some rest, _ => some (.warning, rest)
  | _, _, some rest => some (.info, rest)
  | _, _, _ => none

def afterBlanks? : Text → Option Text
  | [] => none
  | c :: rest => if isBlank c then some (trimStart rest) else none

def readCode? (t : Text) : Option (Text × Text) :=
  match t.takeWhile isWordChar with
  | [] => none
  | code => some (code, t.dropWhile isWordChar)

def readNumberedCode? (t : Text) : Option (Text × Text) :=
  match t.takeWhile isAsciiLetter with
  | [] => none
  | letters => (readDigits? (t.dropWhile isAsciiLetter)).map fun (digits, rest) =>
      (letters ++ digits, rest)

/-- What follows the anchor of a line: severity, code and message. -/
structure Verdict where
  severity : Severity
  code : Text
  message : Text
  deriving DecidableEq, Repr

def readVerdict? (readCode : Text → Option (Text × Text)) (t : Text) : Option Verdict := do
  let (severity, rest) ← readSeverity? t
  let rest ← afterBlanks? rest
  let (code, rest) ← readCode rest
  let rest ← afterColon? rest
  return ⟨severity, code, trim rest⟩

def readPosition? : Text → Option ((Text × Text) × Verdict)
  | '(' :: rest => do
      let (pair, rest) ← readPair? rest
      let rest ← afterRangeEnd? rest
      let rest ← afterColon? rest
      return (pair, ← readVerdict? readCode? rest)
  | _ => none

/-- The first position with a verdict behind it; what stands in front of it is the file. -/
def readLocated? (file : Text) : Text → Option (Text × (Text × Text) × Verdict)
  | [] => none
  | c :: rest =>
      match readPosition? (c :: rest) with
      | some (pair, verdict) => some (file.reverse, pair, verdict)
      | none => readLocated? (c :: file) rest

def readUnlocated? (line : Text) : Option Verdict :=
  let named := match line.dropWhile (· ≠ ':') with
    | [] => none
    | _ :: rest => readVerdict? readNumberedCode? (trimStart rest)
  match named with
  | some verdict => some verdict
  | none => readVerdict? readNumberedCode? line

def isProjectMark : Text → Bool
  | '[' :: rest =>
      match rest.reverse with
      | ']' :: name =>
          match afterPrefix? "jorp" (name.takeWhile (· ≠ '.')), name.dropWhile (· ≠ '.') with
          | some (c :: more), _ :: _ :: _ => (c :: more).all isWordChar && ']' ∉ name
          | _, _ => false
      | _ => false
  | _ => false

def dropProjectMark : Text → Text
  | [] => []
  | c :: rest =>
      if isBlank c && isProjectMark (trimStart rest) then [] else c :: dropProjectMark rest

def readLine (raw : Text) : Except NumberTooLong (Option Diagnostic) :=
  let line := dropProjectMark (trim raw)
  match readLocated? [] line with
  | some (file, (lineDigits, columnDigits), verdict) => do
      let lineNumber ← numberOfDigits lineDigits
      let column ← numberOfDigits columnDigits
      return some {
        message := verdict.message
        code := some verdict.code
        severity := verdict.severity
        span := ⟨some (trim file), some (Int.ofNat lineNumber), some (Int.ofNat column)⟩ }
  | none =>
      match readUnlocated? line with
      | some verdict => .ok (some {
          message := verdict.message
          code := some verdict.code
          severity := verdict.severity })
      | none => .ok none

def readLines : List Text → Except NumberTooLong (List Diagnostic)
  | [] => .ok []
  | line :: lines =>
      match readLine line with
      | .error fault => .error fault
      | .ok found => (readLines lines).map (found.toList ++ ·)

def read (output : Text) : Except NumberTooLong (List Diagnostic) := readLines (outputLines output)

end ScriptWeave.CompilerOutput
