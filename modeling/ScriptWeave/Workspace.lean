import ScriptWeave.Directories
import ScriptWeave.ToolFault

namespace ScriptWeave

structure Workspace where
  cacheRoot : Path
  session : Text
  project : Text
  deriving DecidableEq, Repr

namespace Workspace

def logSource : Text := "mergec.artifacts"

def root (w : Workspace) : Path := (w.cacheRoot.join ".build").join (Path.ofText w.session)

def path (w : Workspace) : Path := w.root.join (Path.ofText w.project)

def binaryPath (w : Workspace) : Path := w.path.join (Path.ofText (w.project ++ ".dll"))

def symbolsPath (w : Workspace) : Path := w.binaryPath.withExtension ".pdb"

def clear (w : Workspace) : Attempt FileError Unit := do
  if ← Attempt.isPresent w.root then Attempt.removeTree w.root

def enter (w : Workspace) : Attempt ArtifactFault Unit := do
  Attempt.rephrase (.workspace w.path) do
    w.clear
    Directories.makeNew w.path
  Procedure.log .debug logSource ("workspace " ++ w.path.toText)

def remove (w : Workspace) : Procedure Bool := do
  match ← w.clear.run with
  | .ok () => return true
  | .error e =>
      Procedure.log .warning logSource
        ("failed to remove build workspace " ++ w.root.toText ++ ": " ++ e.message)
      return false

def write (w : Workspace) (binary : Bytes) (symbols : Option Bytes) :
    Attempt ArtifactFault (Path × Option Path) :=
  Attempt.rephrase (.output w.path) do
    Attempt.write w.binaryPath binary
    match symbols with
    | none => return (w.binaryPath, none)
    | some symbols =>
        Attempt.write w.symbolsPath symbols
        return (w.binaryPath, some w.symbolsPath)

end Workspace

end ScriptWeave
