import ScriptWeave.Path
import ScriptWeave.Text.Quoted

namespace ScriptWeave

inductive FileCause where
  | nullCharacter
  | missing
  | argumentsTooLong
  | notExecutable
  | denied
  | exists
  | notDirectory
  | isDirectory
  | invalid
  | nameTooLong
  | notEmpty
  | tooManyLinks
  | unsupported
  deriving DecidableEq, Repr

namespace FileCause

def number : FileCause → Nat
  | .nullCharacter => 0
  | .missing => 2
  | .argumentsTooLong => 7
  | .notExecutable => 8
  | .denied => 13
  | .exists => 17
  | .notDirectory => 20
  | .isDirectory => 21
  | .invalid => 22
  | .nameTooLong => 36
  | .notEmpty => 39
  | .tooManyLinks => 40
  | .unsupported => 95

def reason : FileCause → Text
  | .nullCharacter => "embedded null byte"
  | .missing => "No such file or directory"
  | .argumentsTooLong => "Argument list too long"
  | .notExecutable => "Exec format error"
  | .denied => "Permission denied"
  | .exists => "File exists"
  | .notDirectory => "Not a directory"
  | .isDirectory => "Is a directory"
  | .invalid => "Invalid argument"
  | .nameTooLong => "File name too long"
  | .notEmpty => "Directory not empty"
  | .tooManyLinks => "Too many levels of symbolic links"
  | .unsupported => "Operation not supported"

def all : List FileCause :=
  [.nullCharacter, .missing, .argumentsTooLong, .notExecutable, .denied, .exists, .notDirectory,
    .isDirectory, .invalid, .nameTooLong, .notEmpty, .tooManyLinks, .unsupported]

/-- The cause of that number; one that no operation here knows counts as invalid. -/
def ofNumber (n : Nat) : FileCause := (all.find? fun c => c.number = n).getD .invalid

theorem ofNumber_number (c : FileCause) : ofNumber c.number = c := by cases c <;> decide

end FileCause

structure FileError where
  cause : FileCause
  path : Path
  deriving DecidableEq, Repr

def FileError.message (e : FileError) : Text :=
  if e.cause = .nullCharacter then e.cause.reason
  else
    "[Errno " ++ Text.ofNat e.cause.number ++ "] " ++ e.cause.reason ++ ": "
      ++ Text.quoted e.path.toText

end ScriptWeave
