import ScriptWeave.FileError
import ScriptWeave.Text.Encoding

namespace ScriptWeave

inductive LogLevel where
  | debug
  | info
  | warning
  deriving DecidableEq, Repr

def LogLevel.toText : LogLevel → Text
  | .debug => "DEBUG"
  | .info => "INFO"
  | .warning => "WARNING"

structure LogRecord where
  level : LogLevel
  source : Text
  message : Text
  deriving DecidableEq, Repr

def LogRecord.render (r : LogRecord) : Text :=
  r.level.toText ++ " " ++ r.source ++ ": " ++ r.message

inductive Action where
  | isPresent (path : Path)
  | isDirectory (path : Path)
  | isRunnable (path : Path)
  | isLink (path : Path)
  /-- Asks for the names in a directory, in no particular order. -/
  | list (path : Path)
  | resolve (path : Path)
  | read (path : Path)
  | makeDirectory (path : Path)
  | write (path : Path) (content : Bytes)
  | append (path : Path) (content : Bytes)
  | mark (path : Path) (runnable : Bool)
  | makeLink (path : Path) (target : Text)
  | move (source target : Path)
  | removeFile (path : Path)
  | removeDirectory (path : Path)
  | removeTree (path : Path)
  | log (record : LogRecord)
  | clock
  deriving DecidableEq, Repr

/-- What an action is answered with. The clock counts milliseconds. -/
abbrev Action.Reply : Action → Type
  | .isPresent _ => Except FileError Bool
  | .isDirectory _ | .isRunnable _ | .isLink _ => Bool
  | .list _ => Except FileError (List Text)
  | .resolve _ => Except FileError Path
  | .read _ => Except FileError Bytes
  | .makeDirectory _ | .write _ _ | .append _ _ | .mark _ _ | .makeLink _ _ | .move _ _
  | .removeFile _ | .removeDirectory _ | .removeTree _ => Except FileError Unit
  | .log _ => Unit
  | .clock => Nat

inductive Procedure (α : Type) where
  | done (result : α)
  | step (action : Action) (next : action.Reply → Procedure α)

namespace Procedure

variable {α β γ : Type}

def bind : Procedure α → (α → Procedure β) → Procedure β
  | .done a, f => f a
  | .step action next, f => .step action fun reply => bind (next reply) f

instance : Monad Procedure where
  pure := .done
  bind := bind

theorem bind_done (p : Procedure α) : bind p .done = p := by
  induction p with
  | done a => rfl
  | step action next ih => simp only [bind, ih]

theorem bind_assoc (p : Procedure α) (f : α → Procedure β) (g : β → Procedure γ) :
    bind (bind p f) g = bind p fun a => bind (f a) g := by
  induction p with
  | done a => rfl
  | step action next ih => simp only [bind, ih]

instance : LawfulMonad Procedure := LawfulMonad.mk' Procedure
  bind_done (fun _ _ => rfl) bind_assoc

def ask (action : Action) : Procedure action.Reply := .step action .done

def log (level : LogLevel) (source message : Text) : Procedure Unit :=
  ask (.log ⟨level, source, message⟩)

end Procedure

abbrev Attempt (ε α : Type) := ExceptT ε Procedure α

namespace Attempt

variable {ε ε' α : Type}

def rephrase (tell : ε → ε') (p : Attempt ε α) : Attempt ε' α :=
  ExceptT.mk do
    let result ← p.run
    return result.mapError tell

def ofProcedure (p : Procedure (Except ε α)) : Attempt ε α := ExceptT.mk p

def ofOutcome (outcome : Except ε α) : Attempt ε α := ofProcedure (.done outcome)

def outcome (p : Attempt ε α) : Attempt ε' (Except ε α) := ExceptT.lift p.run

def followedBy (p : Attempt ε α) (last : Procedure Unit) : Attempt ε α :=
  ExceptT.mk do
    let result ← p.run
    last
    return result

def isPresent (p : Path) : Attempt FileError Bool := ofProcedure (.ask (.isPresent p))

def read (p : Path) : Attempt FileError Bytes := ofProcedure (.ask (.read p))

def makeDirectory (p : Path) : Attempt FileError Unit := ofProcedure (.ask (.makeDirectory p))

def write (p : Path) (content : Bytes) : Attempt FileError Unit :=
  ofProcedure (.ask (.write p content))

def append (p : Path) (content : Bytes) : Attempt FileError Unit :=
  ofProcedure (.ask (.append p content))

def move (source target : Path) : Attempt FileError Unit := ofProcedure (.ask (.move source target))

def removeFile (p : Path) : Attempt FileError Unit := ofProcedure (.ask (.removeFile p))

def removeTree (p : Path) : Attempt FileError Unit := ofProcedure (.ask (.removeTree p))

end Attempt

end ScriptWeave
