import ScriptWeave.Diagnostic
import ScriptWeave.Json
import ScriptWeave.Procedure
import ScriptWeave.Text.Lines

namespace ScriptWeave

namespace Diagnostic

def numberOrNull (n : Option Int) : Json := (n.map Json.integer).getD .null

def textOrNull (t : Option Text) : Json := (t.map Json.text).getD .null

def toJson (d : Diagnostic) : Json := .object [
  ("severity", .text d.severity.toText), ("code", textOrNull d.code), ("message", .text d.message),
  ("file", textOrNull d.span.file), ("line", numberOrNull d.span.line),
  ("column", numberOrNull d.span.column), ("notes", .array (d.notes.map .text))]

end Diagnostic

namespace CommandLine

structure Report where
  exitCode : Nat
  diagnostics : List Diagnostic
  deriving DecidableEq, Repr

namespace Report

def toJson (r : Report) : Json := .object [
  ("exit_code", .integer r.exitCode), ("diagnostics", .array (r.diagnostics.map Diagnostic.toJson))]

def output (r : Report) (json : Bool) : Text := if json then r.toJson.write ++ ['\n'] else []

def errorOutput (r : Report) (json : Bool) : Text :=
  if json then [] else Text.unlines (r.diagnostics.map Diagnostic.render)

end Report

end CommandLine

def LogLevel.isShownAt (verbosity : Nat) : LogLevel → Bool
  | .warning => true
  | .info => 1 ≤ verbosity
  | .debug => 2 ≤ verbosity

end ScriptWeave
