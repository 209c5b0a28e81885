import ScriptWeave.Text.Basic

namespace ScriptWeave.Shell

/-- What takes the place of a parameter that has no value, or of one that has. -/
inductive Fallback where
  | word
  | assigned
  | complaint
  | alternative
  deriving DecidableEq, Repr

inductive OpenMode where
  | read
  | write
  | overwrite
  | append
  | readWrite
  deriving DecidableEq, Repr

mutual

inductive Part where
  | char (c : Char) (isQuoted : Bool)
  | mark
  | parameter (name : Text) (use : Use) (isQuoted : Bool)
  | command (body : Option Command) (isQuoted : Bool)
  | arithmetic (expression : List Part) (isQuoted : Bool)

inductive Use where
  | value
  | length
  | fallback (kind : Fallback) (coversEmpty : Bool) (word : List Part)
  | trim (fromEnd longest : Bool) (pattern : List Part)
  | malformed

inductive Redirection where
  | file (descriptor : Nat) (mode : OpenMode) (target : List Part)
  | duplicate (descriptor : Nat) (source : List Part)
  | document (descriptor number : Nat)

inductive Command where
  | simple (line : Nat) (assignments : List (Text × List Part)) (words : List (List Part))
      (redirections : List Redirection)
  | redirected (line : Nat) (body : Command) (redirections : List Redirection)
  | pipeline (stages : List Command)
  | background (body : Command)
  | subshell (line : Nat) (body : Command) (redirections : List Redirection)
  | inOrder (first second : Command)
  | both (first second : Command)
  | either (first second : Command)
  | inverted (body : Command)
  | branch (condition yes : Command) (no : Option Command)
  | loop (goal : Bool) (condition body : Command)
  | forEach (line : Nat) (name : Text) (words : List (List Part)) (body : Command)
  | choice (line : Nat) (subject : List Part)
      (branches : List (List (List Part) × Option Command))
  | define (line : Nat) (name : Text) (body : Command)

end

abbrev Word := List Part

end ScriptWeave.Shell
