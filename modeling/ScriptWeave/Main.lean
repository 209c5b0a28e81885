import ScriptWeave.CommandLine.Run
import ScriptWeave.Program

namespace ScriptWeave.Main

def toString (t : Text) : String := String.ofList t

def location (p : Path) : String := toString p.toText

def magnitude (code : UInt32) : Nat :=
  if code.toNat < 0x80000000 then code.toNat else 0x100000000 - code.toNat

def errorNumber : IO.Error → Nat
  | .alreadyExists _ code _ | .noFileOrDirectory _ code _ | .interrupted _ code _
  | .invalidArgument _ code _ | .permissionDenied _ code _ | .resourceExhausted _ code _
  | .inappropriateType _ code _ | .noSuchThing _ code _ | .resourceBusy code _
  | .resourceVanished code _ | .unsupportedOperation code _ | .hardwareFault code _
  | .unsatisfiedConstraints code _ | .illegalOperation code _ | .protocolError code _
  | .timeExpired code _ | .otherError code _ => magnitude code
  | .unexpectedEof | .userError _ => 0

def attempt {α : Type} (p : Path) (action : IO α) : IO (Except FileError α) := do
  if p.toText.contains '\x00' then return .error ⟨.nullCharacter, p⟩
  try
    return .ok (← action)
  catch e => return .error ⟨.ofNumber (errorNumber e), p⟩

def tryOpen (name : String) : IO Unit := do
  let _ ← IO.FS.Handle.mk name .read

def isDirectory (p : Path) : IO Bool := do
  return (← attempt p (tryOpen (location p ++ "/."))).toBool

def isPresent (p : Path) : IO (Except FileError Bool) := do
  match ← attempt p (tryOpen (location p)) with
  | .ok () => return .ok true
  | .error ⟨.nameTooLong, p⟩ => return .error ⟨.nameTooLong, p⟩
  | .error ⟨.denied, _⟩ => return .ok true
  | .error _ => return .ok false

def isLink (p : Path) : IO Bool := do
  match ← attempt p (System.mkFilePath [location p]).symlinkMetadata with
  | .ok found => return found.type == .symlink
  | .error _ => return false

/-- The path without links; names behind a place that is not there stay as they are. `names` are
given last one first. -/
def resolveNames (anchor : Anchor) : List Text → IO (Except FileError Path)
  | [] => return .ok ⟨anchor, []⟩
  | name :: above => do
      let p : Path := ⟨anchor, (name :: above).reverse⟩
      match ← isPresent p, ← attempt p (tryOpen (location p)) with
      | .ok true, _ => return .ok (Path.ofText (← IO.FS.realPath (location p)).toString.toList)
      | _, .error ⟨.tooManyLinks, _⟩ => return .error ⟨.tooManyLinks, p⟩
      | _, .error ⟨.nullCharacter, _⟩ => return .error ⟨.nullCharacter, p⟩
      | _, _ => return (← resolveNames anchor above).map fun parent => (parent.child name).normal

def resolve (p : Path) : IO (Except FileError Path) := do
  let directory := Path.ofText (← IO.currentDir).toString.toList
  let p := directory.join p
  resolveNames p.anchor p.names.reverse

def setRunnable (name : String) (runnable : Bool) : IO Unit :=
  IO.setAccessRights name ⟨⟨true, true, runnable⟩, ⟨true, false, runnable⟩, ⟨true, false, runnable⟩⟩

/-- Performs an action. Permission to run a file shows only when it is run, and links
cannot be made. -/
def perform (verbosity : Nat) : (a : Action) → IO a.Reply
  | .isPresent p => isPresent p
  | .isDirectory p => isDirectory p
  | .isRunnable p => do
      let present := match ← isPresent p with
        | .ok b => b
        | .error _ => false
      return present && !(← isDirectory p)
  | .isLink p => isLink p
  | .list p => attempt p do
      return (← (System.mkFilePath [location p]).readDir).toList.map (·.fileName.toList)
  | .resolve p => resolve p
  | .read p => attempt p do return (← IO.FS.readBinFile (location p)).toList
  | .makeDirectory p => attempt p (IO.FS.createDir (location p))
  | .write p content => attempt p (IO.FS.writeBinFile (location p) ⟨content.toArray⟩)
  | .append p content => attempt p do
      let handle ← IO.FS.Handle.mk (location p) .append
      handle.write ⟨content.toArray⟩
  | .mark p runnable => attempt p (setRunnable (location p) runnable)
  | .makeLink p _ => return .error ⟨.unsupported, p⟩
  | .move source target => attempt source (IO.FS.rename (location source) (location target))
  | .removeFile p => attempt p (IO.FS.removeFile (location p))
  | .removeDirectory p => attempt p (IO.FS.removeDir (location p))
  | .removeTree p => attempt p (IO.FS.removeDirAll (location p))
  | .log record => do
      if record.level.isShownAt verbosity then IO.eprintln (toString record.render)
  | .clock => IO.monoMsNow

def carryOut {α : Type} (verbosity : Nat) : Procedure α → IO α
  | .done a => return a
  | .step action next => do carryOut verbosity (next (← perform verbosity action))

def randomName (bytes : USize) : IO Text := do
  return (← IO.getRandomBytes bytes).toList.flatMap Text.hexByte

def randomNames : IO BuildNames := do
  return ⟨← randomName 8, ← randomName 4, ← randomName 4⟩

def homesOf (table : Text) : List (Text × Text) :=
  (Text.splitLines table).filterMap fun line =>
    match Text.pieces (· = ':') line with
    | name :: _ :: _ :: _ :: _ :: home :: _ => some (name, home)
    | _ => none

def lookUp (name : String) : IO Text := do return ((← IO.getEnv name).getD "").toList

def environment : IO Environment := do
  let accounts ← attempt "/etc/passwd" (IO.FS.readBinFile "/etc/passwd")
  let homes := match accounts.map fun content => Text.decode content.toList with
    | .ok (.ok table) => homesOf table
    | _ => []
  let temporary ← lookUp "TMPDIR"
  return {
    cacheVariable := some (← lookUp "MERGEC_CACHE_DIR")
    temporary := if temporary = [] then "/tmp" else Path.ofText temporary
    home := ← lookUp "HOME"
    homes
    searchPath := (Text.pieces (· = ':') (← lookUp "PATH")).map Path.ofText }

def usage : String :=
  "usage: mergec [-h] -o OUTPUT [-r REFERENCES] [--debug] [--config CONFIG]\n" ++
  "              [--cache-dir CACHE_DIR] [--compiler COMPILER] [--no-hoist] [--json]\n" ++
  "              [-v]\n" ++
  "              source [source ...]\n"

def run (i : CommandLine.Invocation) : IO UInt32 := do
  let names ← randomNames
  let environment ← environment
  let procedure := CommandLine.run environment (Program.launch environment) names i
  match ← carryOut i.verbosity procedure.run with
  | .ok report => do
      IO.print (toString (report.output i.json))
      IO.eprint (toString (report.errorOutput i.json))
      return UInt32.ofNat report.exitCode
  | .error fault => do
      IO.eprintln (toString fault.message)
      return 1

end ScriptWeave.Main

def main (arguments : List String) : IO UInt32 := do
  match ScriptWeave.CommandLine.Invocation.read (arguments.map String.toList) with
  | .ok i => ScriptWeave.Main.run i
  | .error .help => do
      IO.print ScriptWeave.Main.usage
      return 0
  | .error (.usage fault) => do
      IO.eprint ScriptWeave.Main.usage
      IO.eprintln (ScriptWeave.Main.toString fault.line)
      return 2
