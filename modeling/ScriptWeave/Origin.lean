import ScriptWeave.Diagnostic
import ScriptWeave.Path
import ScriptWeave.RangeMap

namespace ScriptWeave

/-- What is known of a merge when diagnostics are traced back through it. -/
structure Origin where
  ranges : RangeMap
  /-- The path under which the compiler saw the merged document. -/
  documentPath : Text
  fragmentPaths : List Text := []

namespace Origin

def expandName (o : Origin) (file : Text) : Text :=
  if file = [] ∨ '/' ∈ file then file
  else (o.fragmentPaths.find? fun path => (Path.ofText path).name = file).getD file

def isInDocument (o : Origin) (file : Text) : Bool :=
  file = [] || (Path.ofText file).normal = (Path.ofText o.documentPath).normal

def traceSpan (o : Origin) (s : Span) : Span :=
  match s.line with
  | none => s
  | some line =>
      if o.isInDocument s.fileName then
        match o.ranges.trace (line - 1) with
        | none => s
        | some (file, source) => { s with file := some file, line := some (source + 1) }
      else { s with file := some (o.expandName s.fileName) }

def trace (o : Origin) (d : Diagnostic) : Diagnostic :=
  { d with span := o.traceSpan d.span }

end Origin

end ScriptWeave
