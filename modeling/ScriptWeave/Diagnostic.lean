import ScriptWeave.Text.Lines
import ScriptWeave.Text.Number

namespace ScriptWeave

structure Span where
  file : Option Text := none
  line : Option Int := none
  column : Option Int := none
  deriving DecidableEq, Repr

namespace Span

def isInSource (s : Span) : Bool := s.line.isSome

def fileName (s : Span) : Text := s.file.getD []

def location (s : Span) : Text :=
  match s.line with
  | none => []
  | some line =>
      s.fileName ++ "(" ++ Text.ofInt line ++ "," ++ Text.ofInt (s.column.getD 1) ++ ")"

end Span

inductive Severity where
  | error
  | warning
  | info
  | other (name : Text)
  deriving DecidableEq, Repr

namespace Severity

def toText : Severity → Text
  | .error => "error"
  | .warning => "warning"
  | .info => "info"
  | .other name => name

def ofText (t : Text) : Severity :=
  if t = "error".toList then .error
  else if t = "warning".toList then .warning
  else if t = "info".toList then .info
  else .other t

theorem toText_ofText (t : Text) : (ofText t).toText = t := by
  unfold ofText
  split
  · rename_i h; exact h.symm
  · split
    · rename_i h; exact h.symm
    · split
      · rename_i h; exact h.symm
      · rfl

end Severity

structure Diagnostic where
  message : Text
  code : Option Text := none
  severity : Severity := .error
  span : Span := {}
  /-- A warning that the compiler was told to treat as an error. -/
  promoted : Bool := false
  notes : List Text := []
  deriving DecidableEq, Repr

namespace Diagnostic

def isFailure (d : Diagnostic) : Bool := d.severity = .error || d.promoted

/-- One line: location, severity, code and message. Parts that are absent or empty are left out
together with their separators. -/
def render (d : Diagnostic) : Text :=
  let location := d.span.location
  let anchor : Text := if location = [] then [] else location ++ ": "
  let code := d.code.getD []
  let mark : Text := if code = [] then [] else ' ' :: code
  anchor ++ d.severity.toText ++ mark ++ ": " ++ d.message

def write (d : Diagnostic) : Except Text.NumberTooLong Text :=
  if (d.span.line.all Text.isWritable && d.span.column.all Text.isWritable) = true then .ok d.render
  else .error .value

end Diagnostic

def logTail (log : Text) : List Text :=
  let lines := Text.outputLines (Text.trim log)
  (lines.drop (lines.length - 5)).filter fun line => Text.trim line != []

def unknownFailure (log : Text) : Diagnostic where
  message := "Unknown compiler error"
  code := some "MERGEC0001"
  notes := logTail log

def missingSymbols (log : Text) : Diagnostic where
  message := "Compiler produced no debug symbols"
  code := some "MERGEC0007"
  notes := logTail log

end ScriptWeave
