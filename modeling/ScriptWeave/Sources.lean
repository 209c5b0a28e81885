import ScriptWeave.Procedure
import ScriptWeave.ToolFault

namespace ScriptWeave.Sources

inductive Fault where
  | tool (fault : ToolFault)
  | unresolved (error : FileError)
  deriving DecidableEq, Repr

def unresolvedMessage (e : FileError) : Text :=
  if e.cause = .tooManyLinks then "Symlink loop from " ++ Text.quoted e.path.toText else e.message

def resolve (p : Path) : Attempt FileError Path := .ofProcedure (.ask (.resolve p))

def selectFrom (seen : List Path) : List Path → Attempt FileError (List Path)
  | [] => return []
  | p :: ps => do
      if p.isMergeable then
        let resolved ← resolve p
        if resolved ∈ seen then selectFrom seen ps
        else return p :: (← selectFrom (resolved :: seen) ps)
      else selectFrom seen ps

def select : List Path → Attempt FileError (List Path)
  | [] => return []
  | primary :: imported => do
      let resolved ← resolve primary
      return primary :: (← selectFrom [resolved] imported)

def lineOf (content : Bytes) (offset : Nat) : Nat := (content.take offset).count 10 + 1

/-- The fragment that a file of that content is. A byte order mark is not part of its text. -/
def fragmentOf (p : Path) (content : Bytes) : Except SourceFault Fragment :=
  let content := Text.dropByteOrderMark content
  match Text.decode content with
  | .ok t => .ok ⟨p.toText, t⟩
  | .error fault => .error {
      path := some p.toText
      reason := "source file is not valid UTF-8 (byte 0x" ++ Text.hexByte fault.byte ++ ")"
      line := some (lineOf content fault.offset) }

def read (p : Path) : Attempt Fault Fragment := do
  let resolved ← (resolve p).rephrase .unresolved
  let content ← (Attempt.read resolved).rephrase fun e =>
    .tool (.artifact (.source resolved e.cause))
  Attempt.ofOutcome ((fragmentOf resolved content).mapError fun fault => .tool (.source fault))

def readAll : List Path → Attempt Fault (List Fragment)
  | [] => return []
  | p :: ps => do
      let fragment ← read p
      return fragment :: (← readAll ps)

end ScriptWeave.Sources
