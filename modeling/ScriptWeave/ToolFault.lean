import ScriptWeave.Diagnostic
import ScriptWeave.FileError
import ScriptWeave.Merge

namespace ScriptWeave

/-- Why a compiler could not be run, as opposed to running and complaining. -/
inductive InvocationFault where
  | noCommand
  | notFound (executable : Text)
  | notOnSearchPath (executable : Text)
  | notStarted (error : FileError)
  | backEnd (message : Text)
  | other (message : Text)
  deriving DecidableEq, Repr

def InvocationFault.message : InvocationFault → Text
  | .noCommand => "no compiler command configured"
  | .notFound executable => "compiler not found: " ++ executable
  | .notOnSearchPath executable => "compiler not available on PATH: " ++ executable
  | .notStarted error => "failed to run compiler: " ++ error.message
  | .backEnd message => "compiler back end failed: " ++ message
  | .other message => message

/-- Why files that a compile reads or writes could not be read or written. -/
inductive ArtifactFault where
  | source (path : Path) (cause : FileCause)
  | cacheRoot (path : Path) (error : FileError)
  | workspace (path : Path) (error : FileError)
  | document (path : Path) (error : FileError)
  | output (directory : Path) (error : FileError)
  | publication (path : Path) (error : FileError)
  | other (message : Text)
  deriving DecidableEq, Repr

def ArtifactFault.message : ArtifactFault → Text
  | .source path cause => "cannot read source file " ++ path.toText ++ ": " ++ cause.reason
  | .cacheRoot path error => "cannot create cache root " ++ path.toText ++ ": " ++ error.message
  | .workspace path error =>
      "cannot create build workspace " ++ path.toText ++ ": " ++ error.message
  | .document path error =>
      "cannot write composed source " ++ path.toText ++ ": " ++ error.message
  | .output directory error =>
      "cannot write build output in " ++ directory.toText ++ ": " ++ error.message
  | .publication path error => "cannot copy build output to " ++ path.toText ++ ": " ++ error.message
  | .other message => message

def ArtifactFault.error? : ArtifactFault → Option FileError
  | .source path cause => some ⟨cause, path⟩
  | .cacheRoot _ error | .workspace _ error | .document _ error | .output _ error
  | .publication _ error => some error
  | .other _ => none

/-- The fault's line for readers; a source without a path is called a fragment. -/
def SourceFault.message (f : SourceFault) : Text :=
  let path := f.path.getD []
  let shown : Text := if path = [] then "<fragment>" else path
  shown ++ ": " ++ f.reason

inductive ToolFault where
  | unspecified (message : Text)
  | source (fault : SourceFault)
  | invocation (fault : InvocationFault)
  | artifact (fault : ArtifactFault)
  | failed (diagnostics : List Diagnostic)
  deriving DecidableEq, Repr

namespace ToolFault

def code : ToolFault → Text
  | .unspecified _ => "MERGEC0000"
  | .source _ => "MERGEC0002"
  | .invocation _ => "MERGEC0003"
  | .artifact _ => "MERGEC0004"
  | .failed _ => "MERGEC0005"

def message : ToolFault → Text
  | .unspecified message => message
  | .source fault => fault.message
  | .invocation fault => fault.message
  | .artifact fault => fault.message
  | .failed diagnostics => Text.joinWith ['\n'] (diagnostics.map Diagnostic.render)

/-- The fault as a diagnostic. That of a source keeps its position, if it has a line. -/
def toDiagnostic (f : ToolFault) : Diagnostic :=
  match f with
  | .source fault =>
      { message := fault.reason
        code := some f.code
        span :=
          if fault.line = none then ⟨fault.path, none, none⟩
          else ⟨fault.path, fault.line, fault.column⟩ }
  | _ => { message := f.message, code := some f.code }

end ToolFault

end ScriptWeave
