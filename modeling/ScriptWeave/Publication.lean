import ScriptWeave.Workspace

/-!
Publication puts the files that a build made where the caller wants them. Each is copied to a
temporary file beside its destination and moved over it in one step, so that a reader of the
destination sees the old file or the whole new one. If a step fails, what is already published is
taken back.
-/

namespace ScriptWeave

structure Chunking where
  chunks : Bytes → List Bytes
  flatten_chunks : ∀ content, (chunks content).flatten = content

def Chunking.whole : Chunking where
  chunks content := [content]
  flatten_chunks content := by simp

structure CopyNames where
  binary : Text
  symbols : Text
  deriving DecidableEq, Repr

namespace Publication

inductive Fault where
  | artifact (fault : ArtifactFault)
  | nameless (path : Path)
  deriving DecidableEq, Repr

def temporaryPath (target : Path) (name : Text) : Path :=
  target.withName ("." ++ target.name ++ "." ++ name ++ ".tmp")

def appendAll (p : Path) : List Bytes → Attempt FileError Unit
  | [] => return ()
  | chunk :: chunks => do
      Attempt.append p chunk
      appendAll p chunks

def requireAskable (p : Path) : Attempt FileError Unit :=
  if p.names.any (·.contains '\x00') then throw ⟨.nullCharacter, p⟩ else return ()

def copyThrough (chunking : Chunking) (source temporary target : Path) : Attempt FileError Unit := do
  requireAskable source
  requireAskable temporary
  let content ← Attempt.read source
  Attempt.write temporary []
  appendAll temporary (chunking.chunks content)
  Attempt.move temporary target

def discard (temporary : Path) : Attempt FileError Unit := do
  if ← Attempt.isPresent temporary then Attempt.removeFile temporary

/-- Replaces the target by a copy of the source. The temporary file is discarded in any case; if
that fails, its fault takes the place of an earlier one. -/
def replace (chunking : Chunking) (name : Text) (source target : Path) :
    Attempt FileError Unit := do
  Directories.ensure target.parent
  let temporary := temporaryPath target name
  let copied ← (copyThrough chunking source temporary target).outcome
  discard temporary
  Attempt.ofOutcome copied

def removeIfPresent (p : Path) : Attempt FileError Unit := do
  match ← (Attempt.removeFile p).outcome with
  | .error ⟨.missing, _⟩ => return ()
  | result => Attempt.ofOutcome result

def withdraw (p : Path) : Procedure Unit := do
  match ← Procedure.ask (.removeFile p) with
  | .ok () => return ()
  | .error e =>
      Procedure.log .warning Workspace.logSource
        ("failed to remove partial output " ++ p.toText ++ ": " ++ e.message)

def publishSymbols (chunking : Chunking) (name : Text) (target : Path) :
    Option Path → Attempt FileError (Option Path)
  | some symbols => do
      replace chunking name symbols target
      return some target
  | none => do
      removeIfPresent target
      return none

def publish (chunking : Chunking) (names : CopyNames) (binary output : Path)
    (symbols : Option Path) : Attempt Fault (Path × Option Path) :=
  if output.name = [] then throw (.nameless output)
  else
    Attempt.rephrase (fun e => .artifact (.publication output e)) do
      replace chunking names.binary binary output
      let siblings := publishSymbols chunking names.symbols (output.withExtension ".pdb") symbols
      match ← siblings.outcome with
      | .ok published => return (output, published)
      | .error e =>
          unless e.cause = .nullCharacter do withdraw output
          throw e

end Publication

end ScriptWeave
