import ScriptWeave.BackEnd
import ScriptWeave.Origin
import ScriptWeave.Publication
import ScriptWeave.Reference
import ScriptWeave.Settings
import ScriptWeave.Sources
import ScriptWeave.Diagnostic

namespace ScriptWeave

structure BuildOptions where
  output : Path
  debug : Bool := false
  references : List Path := []
  deriving DecidableEq, Repr

structure BuildNames where
  session : Text
  copies : CopyNames
  deriving DecidableEq, Repr

inductive BuildResult where
  | built (binary : Path) (symbols : Option Path) (warnings : List Diagnostic)
  | failed (diagnostics : List Diagnostic)
  deriving DecidableEq, Repr

def BuildResult.fault? : BuildResult → Option ToolFault
  | .built _ _ _ => none
  | .failed diagnostics => some (.failed diagnostics)

inductive BuildFault where
  | tool (fault : ToolFault)
  | noInput
  | unresolved (error : FileError)
  | unaskable (error : FileError)
  | nameless (path : Path)
  | ranges (conflict : RangeConflict)
  deriving DecidableEq, Repr

namespace BuildFault

def namelessMessage (p : Path) : Text :=
  "PosixPath(" ++ Text.quoted p.toText ++ ") has an empty name"

def message : BuildFault → Text
  | .tool fault => fault.message
  | .noInput => "no input files"
  | .unresolved error => Sources.unresolvedMessage error
  | .unaskable error => error.message
  | .nameless path => namelessMessage path
  | .ranges conflict => conflict.message

def ofSources : Sources.Fault → BuildFault
  | .tool fault => .tool fault
  | .unresolved error => .unresolved error

def ofArtifact (fault : ArtifactFault) : BuildFault :=
  match fault.error? with
  | some error =>
      if error.cause = .nullCharacter then .unaskable error else .tool (.artifact fault)
  | none => .tool (.artifact fault)

def ofPublication : Publication.Fault → BuildFault
  | .artifact fault => .ofArtifact fault
  | .nameless path => .nameless path

end BuildFault

namespace Build

def logSource : Text := "mergec.driver"

def mergeLogSource : Text := "mergec.compose"

def referenceLogSource : Text := "mergec.references"

def ensureCacheRoot (root : Path) : Attempt ArtifactFault Unit :=
  (Directories.ensure root).rephrase (.cacheRoot root)

def listed (separator : Text) : List Text → Text
  | [] => "<none>"
  | parts => Text.joinWith separator parts

def logImport (i : Import) : Procedure Unit :=
  .log .debug mergeLogSource
    (i.fragment.path ++ ": " ++ Text.ofNat i.split.lineCount ++ " header line(s): "
      ++ listed [' '] i.split.directives)

def logDocument (imports : List Import) (d : Document) : Procedure Unit :=
  .log .debug mergeLogSource
    ("composed " ++ Text.ofNat (imports.length + 1) ++ " fragment(s) into "
      ++ Text.ofNat d.lines.length ++ " line(s), " ++ Text.ofNat d.ranges.entries.length
      ++ " range(s)")

def logEach {α : Type} (logOne : α → Procedure Unit) : List α → Procedure Unit
  | [] => return ()
  | a :: as => do
      logOne a
      logEach logOne as

def merge (hoist : Bool) (primary : Fragment) (imported : List Fragment) :
    Attempt BuildFault Document := do
  let imports ← Attempt.ofOutcome ((Import.ofFragments imported).mapError fun fault =>
    .tool (.source fault))
  logEach logImport imports
  let document ← Attempt.ofOutcome ((mergeImports hoist primary imports).mapError .ranges)
  logDocument imports document
  return document

/-- The references that the compile is given; those that are not absolute are logged. -/
def resolveReferences (settings : Settings) (references : List Path) : Procedure (List Path) := do
  logEach (fun p => .log .debug referenceLogSource ("skipping non-rooted reference " ++ p.toText))
    (Reference.skipped references)
  let resolved := Reference.resolve settings.providedDirectories references
  Procedure.log .debug logSource
    ("references: " ++ listed ", " (resolved.map Path.toText))
  return resolved

def seconds (milliseconds : Nat) : Text :=
  let rest := Text.ofNat (milliseconds % 1000)
  Text.ofNat (milliseconds / 1000) ++ "." ++ List.replicate (3 - rest.length) '0' ++ rest ++ "s"

def emit (backEnd : BackEnd) (request : EmitRequest) : Attempt BuildFault EmitResult := do
  let started ← Procedure.ask .clock
  let result ← (backEnd request).outcome
  let ended ← Procedure.ask .clock
  Procedure.log .info logSource ("compiler: " ++ seconds (ended - started))
  Attempt.ofOutcome (result.mapError fun fault => .tool (.invocation fault.toInvocation))

/-- What is to be reported of an emission that failed: the failures that the back end told, or one
that stands in for them. -/
def failures (origin : Origin) (emitted : EmitResult) : List Diagnostic :=
  match (emitted.diagnostics.filter Diagnostic.isFailure).map origin.trace with
  | [] => [unknownFailure emitted.log]
  | ds => ds

def warnings (origin : Origin) (emitted : EmitResult) : List Diagnostic :=
  (emitted.diagnostics.filter fun d => d.severity = .warning).map origin.trace

def conclude (options : BuildOptions) (names : CopyNames) (workspace : Workspace)
    (origin : Origin) (emitted : EmitResult) : Attempt BuildFault BuildResult :=
  match emitted.success, emitted.binary with
  | true, some binary => do
      if options.debug && emitted.symbols.isNone then
        return .failed [missingSymbols emitted.log]
      else
        let symbols := if options.debug then emitted.symbols else none
        let (binaryPath, symbolsPath) ← (workspace.write binary symbols).rephrase .ofArtifact
        let (output, symbolsOutput) ←
          (Publication.publish .whole names binaryPath options.output symbolsPath).rephrase
            .ofPublication
        return .built output symbolsOutput (warnings origin emitted)
  | _, _ => return .failed (failures origin emitted)

def runIn (backEnd : BackEnd) (settings : Settings) (options : BuildOptions) (names : CopyNames)
    (workspace : Workspace) (primary : Fragment) (imported : List Fragment) :
    Attempt BuildFault BuildResult := do
  let document ← merge settings.hoist primary imported
  let documentPath := workspace.path.join (Path.ofText primary.name)
  (Attempt.write documentPath (Text.encode document.text)).rephrase fun e =>
    .ofArtifact (.document documentPath e)
  let references ← resolveReferences settings options.references
  let emitted ← emit backEnd {
    text := document.text
    path := documentPath
    project := workspace.project
    references
    debug := options.debug
    scratch := some (workspace.path.join "obj") }
  let origin : Origin :=
    ⟨document.ranges, documentPath.toText, (primary :: imported).map Fragment.path⟩
  conclude options names workspace origin emitted

def projectOf (primary : Fragment) : Text := (Path.ofText primary.path).stem

def run (backEnd : BackEnd) (settings : Settings) (options : BuildOptions) (names : BuildNames)
    (sources : List Path) : Attempt BuildFault BuildResult := do
  match ← (Sources.readAll sources).rephrase .ofSources with
  | [] => throw .noInput
  | primary :: imported =>
      let workspace : Workspace := ⟨settings.cacheRoot, names.session, projectOf primary⟩
      (ensureCacheRoot settings.cacheRoot).rephrase .ofArtifact
      workspace.enter.rephrase .ofArtifact
      (runIn backEnd settings options names.copies workspace primary imported).followedBy do
        let _ ← workspace.remove

end Build

end ScriptWeave
