import ScriptWeave.Procedure
import ScriptWeave.Text.Number
import ScriptWeave.ToolFault

namespace ScriptWeave

structure EmitRequest where
  text : Text
  path : Path
  project : Text
  references : List Path := []
  debug : Bool := false
  /-- Where the back end may write; the document's own directory if nothing else is said. -/
  scratch : Option Path := none
  deriving DecidableEq, Repr

structure EmitResult where
  success : Bool
  binary : Option Bytes := none
  symbols : Option Bytes := none
  diagnostics : List Diagnostic := []
  log : Text := []
  deriving DecidableEq, Repr

inductive BackEndFault where
  | invocation (fault : InvocationFault)
  | file (error : FileError)
  | encoding (fault : Text.DecodeFault)
  | number (fault : Text.NumberTooLong)
  | other (message : Text)
  deriving DecidableEq, Repr

namespace BackEndFault

def message : BackEndFault → Text
  | .invocation fault => fault.message
  | .file error => error.message
  | .encoding fault => fault.message
  | .number fault => fault.message
  | .other message => message

def ofLaunch (error : FileError) : BackEndFault :=
  if error.cause = .nullCharacter then .file error else .invocation (.notStarted error)

def toInvocation : BackEndFault → InvocationFault
  | .invocation fault => fault
  | fault => .backEnd fault.message

end BackEndFault

abbrev BackEnd := EmitRequest → Attempt BackEndFault EmitResult

end ScriptWeave
