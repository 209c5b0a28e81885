import ScriptWeave.Text.Lines

namespace ScriptWeave.Header

open Text

def isGap (c : Char) : Bool :=
  c == ' ' || c == '\t' || c == '\x0c' || c == '\r' || c == '\n'

def isLineEnd (c : Char) : Bool := c == '\r' || c == '\n'

def restOfLine (t : Text) : Text := t.dropWhile fun c => !isLineEnd c

def afterCommentEnd? : Text → Option Text
  | '*' :: '/' :: rest => some rest
  | _ :: rest => afterCommentEnd? rest
  | [] => none

/-- The text behind one separator, comment or preprocessor line. A block comment that is never
closed is no comment. -/
def afterTrivium? : Text → Option Text
  | '/' :: '/' :: rest => some (restOfLine rest)
  | '/' :: '*' :: rest => afterCommentEnd? rest
  | '#' :: rest => some (restOfLine rest)
  | c :: rest => if isGap c then some rest else none
  | [] => none

def skipTriviaWithin : Nat → Text → Text
  | 0, t => t
  | fuel + 1, t =>
      match afterTrivium? t with
      | none => t
      | some rest => skipTriviaWithin fuel rest

/-- The text from the first character on that no trivium covers. Each trivium takes at least one
character, so the length of the text bounds their number. -/
def skipTrivia (t : Text) : Text := skipTriviaWithin t.length t

inductive Symbol where
  | dot
  | comma
  | semicolon
  | less
  | greater
  | openBracket
  | closeBracket
  | equals
  | question
  | doubleColon
  deriving DecidableEq, Repr

def Symbol.toText : Symbol → Text
  | .dot => "."
  | .comma => ","
  | .semicolon => ";"
  | .less => "<"
  | .greater => ">"
  | .openBracket => "["
  | .closeBracket => "]"
  | .equals => "="
  | .question => "?"
  | .doubleColon => "::"

inductive Token where
  | word (w : Text)
  | symbol (s : Symbol)
  deriving DecidableEq, Repr

def isNameStart (c : Char) : Bool := isWordChar c && !isDecimal c

/-- A name and the text behind it: word characters that do not start with a digit, with one at
sign allowed in front. -/
def readName? : Text → Option (Text × Text)
  | [] => none
  | c :: rest =>
      if isNameStart c then some (c :: rest.takeWhile isWordChar, rest.dropWhile isWordChar)
      else if c = '@' then
        match rest with
        | [] => none
        | d :: rest =>
            if isNameStart d then
              some (c :: d :: rest.takeWhile isWordChar, rest.dropWhile isWordChar)
            else none
      else none

def readSymbol? : Text → Option (Symbol × Text)
  | '.' :: rest => some (.dot, rest)
  | ',' :: rest => some (.comma, rest)
  | ';' :: rest => some (.semicolon, rest)
  | '<' :: rest => some (.less, rest)
  | '>' :: rest => some (.greater, rest)
  | '[' :: rest => some (.openBracket, rest)
  | ']' :: rest => some (.closeBracket, rest)
  | '=' :: rest => some (.equals, rest)
  | '?' :: rest => some (.question, rest)
  | ':' :: ':' :: rest => some (.doubleColon, rest)
  | _ => none

def readToken? (t : Text) : Option (Token × Text) :=
  match readName? t with
  | some (w, rest) => some (.word w, rest)
  | none => (readSymbol? t).map fun (s, rest) => (.symbol s, rest)

/-- The tokens from a place up to the first semicolon. Each keeps the text that begins with it,
so that a complaint can quote and locate it. -/
inductive Tokens where
  | more (here : Text) (token : Token) (tokens : Tokens)
  | closed (here : Text) (after : Text)
  /-- No token begins here; at the end of the input nothing is left. -/
  | stuck (here : Text)
  deriving Repr

def Tokens.readWithin : Nat → Text → Tokens
  | 0, t => .stuck t
  | fuel + 1, t =>
      let here := skipTrivia t
      match readToken? here with
      | none => .stuck here
      | some (.symbol .semicolon, after) => .closed here after
      | some (token, after) => .more here token (readWithin fuel after)

def Tokens.read (t : Text) : Tokens := Tokens.readWithin (t.length + 1) t

def isTargetChar (c : Char) : Bool :=
  isWordChar c || isBlank c || c == '.' || c == ':' || c == '@' || c == '<' || c == '>' ||
    c == ',' || c == '?' || c == '[' || c == ']'

def targetAhead (t : Text) : Bool :=
  match t.takeWhile isTargetChar, t.dropWhile isTargetChar with
  | _ :: _, ';' :: _ => true
  | _, _ => false

def aliasAhead (t : Text) : Bool :=
  let name := match t with
    | '@' :: rest => rest
    | _ => t
  match name.takeWhile isWordChar, (name.dropWhile isWordChar).dropWhile isBlank with
  | _ :: _, '=' :: rest => targetAhead rest
  | _, _ => false

def startsBlank : Text → Bool
  | [] => false
  | c :: _ => isBlank c

/-- The text behind `using`, if the word opens a declaration here: a target follows, perhaps with
`static` or an alias before it, and up to the semicolon there is nothing else. A statement that
starts with the same word is left to the body. -/
def afterUsing? (t : Text) : Option Text :=
  match afterPrefix? "using" t with
  | none => none
  | some rest =>
      let next := rest.dropWhile isBlank
      let behindStatic := match afterPrefix? "static" next with
        | none => []
        | some rest => if startsBlank rest then rest.dropWhile isBlank else []
      if startsBlank rest
          && (targetAhead (rest.drop 1) || aliasAhead next || aliasAhead behindStatic)
      then some rest
      else none

def wordAhead (word t : Text) : Bool :=
  startsBlank t &&
    match afterPrefix? word (t.dropWhile isBlank) with
    | none => false
    | some [] => true
    | some (c :: _) => !isWordChar c

def afterGlobal? (t : Text) : Option Text :=
  (afterPrefix? "global" t).filter (wordAhead "using")

def afterExtern? (t : Text) : Option Text :=
  (afterPrefix? "extern" t).filter (wordAhead "alias")

end ScriptWeave.Header
