import ScriptWeave.Header.Declaration

namespace ScriptWeave.Header

open Text

def before (t rest : Text) : Text := t.take (t.length - rest.length)

def declarationsWithin : Nat → Text → Except Fault (List Text × Text)
  | 0, t => .ok ([], t)
  | fuel + 1, t =>
      let here := skipTrivia t
      match readDeclaration? here with
      | none => .ok ([], t)
      | some (.error fault) => .error fault
      | some (.ok after) =>
          match declarationsWithin fuel after with
          | .error fault => .error fault
          | .ok (declarations, rest) => .ok (before here after :: declarations, rest)

def declarations (t : Text) : Except Fault (List Text × Text) :=
  declarationsWithin (t.length + 1) t

def isInlineGap (c : Char) : Bool := c == ' ' || c == '\t'

def afterInlineCommentEnd? : Text → Option Text
  | '*' :: '/' :: rest => some rest
  | c :: rest => if isLineEnd c then none else afterInlineCommentEnd? rest
  | [] => none

def afterInlineComment? : Text → Option Text
  | '/' :: '*' :: rest => afterInlineCommentEnd? rest
  | _ => none

def skipInlineWithin : Nat → Text → Text
  | 0, t => t.dropWhile isInlineGap
  | fuel + 1, t =>
      match afterInlineComment? (t.dropWhile isInlineGap) with
      | none => t.dropWhile isInlineGap
      | some rest => skipInlineWithin fuel rest

def skipLineComment : Text → Text
  | '/' :: '/' :: rest => restOfLine rest
  | t => t

def skipBreak : Text → Text
  | '\r' :: '\n' :: rest => rest
  | '\r' :: rest => rest
  | '\n' :: rest => rest
  | t => t

/-- The text behind the rest of a declaration's line: blanks, block comments that end on it, one
line comment and the line break. Code that shares the line stays. -/
def skipTrailing (t : Text) : Text := skipBreak (skipLineComment (skipInlineWithin t.length t))

structure Split where
  header : Text := []
  body : Text
  lineCount : Nat := 0
  directives : List Text := []
  deriving DecidableEq, Repr

namespace Split

def headerLines (s : Split) : List Text := splitLines s.header

def bodyLines (s : Split) : List Text := splitLines s.body

end Split

def split (t : Text) : Except Fault Split :=
  match declarations t with
  | .error fault => .error fault
  | .ok ([], _) => .ok ⟨[], t, 0, []⟩
  | .ok (declaration :: more, rest) =>
      let body := skipTrailing rest
      .ok ⟨trimEnd (before t body), body, countLineBreaks (before t body),
        (declaration :: more).map collapseBlanks⟩

def Fault.position (t : Text) (f : Fault) : Position := positionBehind (before t f.here)

end ScriptWeave.Header
