import ScriptWeave.CommandWords
import ScriptWeave.FileError
import ScriptWeave.Json.Reader
import ScriptWeave.Procedure
import ScriptWeave.Text.Encoding

namespace ScriptWeave

structure Environment where
  cacheVariable : Option Text := none
  temporary : Path := "/tmp"
  home : Text
  homes : List (Text × Text) := []
  searchPath : List Path := []

namespace Environment

def defaultCacheRoot (e : Environment) : Path :=
  match e.cacheVariable with
  | some (c :: rest) => Path.ofText (c :: rest)
  | _ => e.temporary.join "mergec/cache"

def homeOf? (e : Environment) (user : Text) : Option Text :=
  if user = [] then some e.home else (e.homes.find? fun h => h.1 = user).map (·.2)

/-- The path with a leading `~` or `~user` replaced by the home directory; nothing if there is no
such user. -/
def expandHome? (e : Environment) (p : Path) : Option Path :=
  match p.anchor, p.names with
  | .relative, ('~' :: user) :: names =>
      (e.homeOf? user).map fun home =>
        let home := Path.ofText (if home = [] then ['/'] else home)
        ⟨home.anchor, home.names ++ names⟩
  | _, _ => some p

end Environment

structure Settings where
  cacheRoot : Path
  compiler : List Text := ["csc"]
  platformDirectories : List Path := []
  hostDirectory : Option Path := none
  hoist : Bool := true
  deriving DecidableEq, Repr

namespace Settings

def default (e : Environment) : Settings := { cacheRoot := e.defaultCacheRoot }

def providedDirectories (s : Settings) : List Path :=
  s.platformDirectories ++ s.hostDirectory.toList

inductive Fault where
  | file (error : FileError)
  | encoding (fault : Text.DecodeFault)
  | json (content : Text) (fault : Json.ReadFault)
  | words (fault : CommandWords.Fault)
  | notObject
  | unsupported
  | notText (what : Text)
  | notTexts (what : Text)
  | noCompiler
  | notFlag (what : Text)
  | noHome
  deriving DecidableEq, Repr

def Fault.message : Fault → Text
  | .file error => error.message
  | .encoding fault => fault.message
  | .json content fault => fault.message content
  | .words fault => fault.message
  | .notObject => "settings must be a JSON object"
  | .unsupported => "unsupported settings format/version"
  | .notText what => what ++ " must be a non-empty string"
  | .notTexts what => what ++ " must be a list of non-empty strings"
  | .noCompiler => "compiler must not be empty"
  | .notFlag what => what ++ " must be a boolean"
  | .noHome => "Could not determine home directory."

def format : Text := "mergec-settings"

def isUnaskableHome (p : Path) : Bool :=
  match p.anchor, p.names with
  | .relative, ('~' :: user) :: _ => user.contains '\x00'
  | _, _ => false

def directory (e : Environment) (base : Path) (t : Text) : Except Fault Path :=
  let p := Path.ofText t
  if isUnaskableHome p then .error (.file ⟨.nullCharacter, p⟩)
  else
    match e.expandHome? p with
    | none => .error .noHome
    | some p => .ok (base.join p)

def directories (e : Environment) (base : Path) : List Text → Except Fault (List Path)
  | [] => .ok []
  | t :: ts =>
      match directory e base t with
      | .error fault => .error fault
      | .ok p => (directories e base ts).map (p :: ·)

def textOf (what : Text) : Json → Except Fault Text
  | .text (c :: rest) => .ok (c :: rest)
  | _ => .error (.notText what)

def nonEmptyTexts? : List Json → Option (List Text)
  | [] => some []
  | .text (c :: rest) :: more => (nonEmptyTexts? more).map ((c :: rest) :: ·)
  | _ => none

def textsOf (what : Text) (j : Json) : Except Fault (List Text) :=
  match j with
  | .array items =>
      match nonEmptyTexts? items with
      | some ts => .ok ts
      | none => .error (.notTexts what)
  | _ => .error (.notTexts what)

def isSupported (fields : List (Text × Json)) : Bool :=
  (match Json.field? fields "format" with
    | some (.text t) => t = format
    | _ => false)
  && (match Json.field? fields "version" with
    | some j => j.equalsZero
    | none => false)

def ofFields (e : Environment) (base : Path) (fields : List (Text × Json)) :
    Except Fault Settings := do
  let cacheRoot ← match Json.field? fields "cache_root" with
    | none => .ok e.defaultCacheRoot
    | some j => do directory e base (← textOf "cache_root" j)
  let compiler : List Text ← match Json.field? fields "compiler" with
    | none => .ok ["csc"]
    | some j => do
        match ← textsOf "compiler" j with
        | [] => .error .noCompiler
        | words => .ok words
  let platformDirectories ← match Json.field? fields "platform_dirs" with
    | none => .ok []
    | some j => do directories e base (← textsOf "platform_dirs" j)
  let hostDirectory ← match Json.field? fields "host_dir" with
    | none | some .null => .ok none
    | some j => do .ok (some (← directory e base (← textOf "host_dir" j)))
  let hoist ← match Json.field? fields "hoist_directives" with
    | none => .ok true
    | some (.bool b) => .ok b
    | some _ => .error (.notFlag "hoist_directives")
  .ok { cacheRoot, compiler, platformDirectories, hostDirectory, hoist }

def ofJson (e : Environment) (base : Path) : Json → Except Fault Settings
  | .object fields =>
      if isSupported fields then ofFields e base fields else .error .unsupported
  | _ => .error .notObject

def ofBytes (e : Environment) (base : Path) (content : Bytes) : Except Fault Settings :=
  match Text.decode content with
  | .error fault => .error (.encoding fault)
  | .ok t =>
      let t := Text.normalizeBreaks t
      match Json.read t with
      | .error fault => .error (.json t fault)
      | .ok j => ofJson e base j

def load (e : Environment) (p : Path) : Attempt Fault Settings := do
  let content ← (Attempt.read p).rephrase .file
  Attempt.ofOutcome (ofBytes e p.parent content)

end Settings

end ScriptWeave
