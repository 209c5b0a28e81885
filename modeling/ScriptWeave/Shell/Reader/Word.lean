import ScriptWeave.Shell.Command

namespace ScriptWeave.Shell

structure AwaitedDocument where
  number : Nat
  closing : Text
  isLiteral : Bool
  dropsTabs : Bool
  deriving DecidableEq, Repr

inductive Token where
  /-- A word, with its text if nothing in it is quoted or stands for something else. -/
  | word (parts : Word) (plain : Option Text)
  | keyword (k : Text)
  | operator (o : Text)
  | redirection (descriptor : Option Nat) (o : Text)
  | newline
  | stop

structure Source where
  rest : Text
  line : Nat := 1
  pushed : Option Token := none
  awaited : List AwaitedDocument := []
  documents : List (Nat × Word) := []
  nextDocument : Nat := 0
  aliases : List (Text × Text) := []
  openAliases : List (Text × Nat) := []

structure SyntaxFault where
  line : Nat
  message : Text
  deriving DecidableEq, Repr

abbrev Reader (α : Type) := StateT Source (Except SyntaxFault) α

namespace Reader

def fail {α : Type} (message : Text) : Reader α := do throw ⟨(← get).line, message⟩

def joinLines (line : Nat) : Text → Text × Nat
  | '\\' :: '\n' :: rest => joinLines (line + 1) rest
  | rest => (rest, line)

def skipJoins : Reader Unit := modify fun s =>
  let (rest, line) := joinLines s.line s.rest
  { s with rest, line }

def peek : Reader (Option Char) := do
  skipJoins
  return (← get).rest.head?

def advance : Reader Unit := modify fun s =>
  match s.rest with
  | [] => s
  | c :: rest => { s with rest, line := if c = '\n' then s.line + 1 else s.line }

def accept (c : Char) : Reader Bool := do
  if (← peek) = some c then
    advance
    return true
  else return false

def takeWhile (passes : Char → Bool) : Nat → Reader Text
  | 0 => return []
  | fuel + 1 => do
      match ← peek with
      | some c =>
          if passes c then
            advance
            return c :: (← takeWhile passes fuel)
          else return []
      | none => return []

def push (t : Token) : Reader Unit := modify fun s => { s with pushed := some t }

def within {α : Type} (line : Nat) (t : Text) (read : Reader α) : Reader α := do
  let s ← get
  set { s with rest := t, line, pushed := none, awaited := [] }
  let a ← read
  modify fun inner => { s with documents := inner.documents, nextDocument := inner.nextDocument }
  return a

end Reader

def isNameStart (c : Char) : Bool := c.isAlpha || c = '_'

def isNameChar (c : Char) : Bool := c.isAlphanum || c = '_'

def isName : Text → Bool
  | [] => false
  | c :: rest => isNameStart c && rest.all isNameChar

def isSpecial (c : Char) : Bool := c.isDigit || c ∈ ['@', '*', '#', '?', '-', '$', '!']

namespace Reader

/-- A stretch of a word, by what ends it and what is special in it. -/
inductive Stretch where
  | bare
  | quotes
  | braces
  | quotedBraces
  | quotesInBraces
  | arithmetic (depth : Nat)
  | document
  deriving DecidableEq, Repr

namespace Stretch

def isQuoted : Stretch → Bool
  | .bare | .braces => false
  | _ => true

def inBraces : Stretch → Stretch
  | .bare | .braces => .braces
  | _ => .quotedBraces

def escapes : Stretch → Char → Bool
  | .bare, _ | .braces, _ => true
  | stretch, c =>
      c = '\\' || c = '`' || c = '$' || (c = '"' && stretch != .document)
        || (c = '}' && (stretch = .quotedBraces || stretch = .quotesInBraces))

def complaint : Stretch → Text
  | .arithmetic _ => "Missing '))'"
  | .braces => "Missing '\x7d'"
  | _ => "Unterminated quoted string"

end Stretch

/-- How commands in a word are read: up to a closing parenthesis, or all that there is. -/
structure Nested where
  closed : Reader (Option Command)
  whole : Reader (Option Command)

def endsWord (c : Char) : Bool := c ∈ [' ', '\t', '\n', ';', '&', '|', '<', '>', '(', ')']

def readSingleQuotes : Reader (List Part) := do
  let s ← get
  let inside := s.rest.takeWhile (· ≠ '\'')
  let after := s.rest.drop inside.length
  set { s with rest := after.drop 1, line := s.line + inside.count '\n' }
  if after = [] then fail "Unterminated quoted string"
  else return .mark :: inside.map (.char · true)

def readBackquotes (isQuoted : Bool) : Nat → Reader Text
  | 0 => fail "EOF in backquote substitution"
  | fuel + 1 => do
      match ← peek with
      | none => fail "EOF in backquote substitution"
      | some '`' => do
          advance
          return []
      | some '\\' => do
          advance
          match (← get).rest.head? with
          | none => fail "EOF in backquote substitution"
          | some c => do
              advance
              let rest ← readBackquotes isQuoted fuel
              if c = '\\' ∨ c = '`' ∨ c = '$' ∨ (isQuoted ∧ c = '"') then return c :: rest
              else return '\\' :: c :: rest
      | some c => do
          advance
          return c :: (← readBackquotes isQuoted fuel)

def readOldSubstitution (nested : Nested) (isQuoted : Bool) : Reader Part := do
  let t ← readBackquotes isQuoted ((← get).rest.length + 1)
  return .command (← within 1 t nested.whole) isQuoted

def readSubstitution (nested : Nested) (isQuoted : Bool) : Reader Part := do
  let awaited := (← get).awaited
  modify fun s => { s with awaited := [] }
  let body ← nested.closed
  modify fun s => { s with awaited }
  return .command body isQuoted

def readName (fuel : Nat) : Reader Text := do
  match ← peek with
  | some c =>
      if c.isDigit then takeWhile Char.isDigit fuel
      else if isNameStart c then takeWhile isNameChar fuel
      else if isSpecial c then do
        advance
        return [c]
      else return []
  | none => return []

/-- What stands behind the name of a parameter in braces, up to its word. -/
inductive Mark where
  | closing
  | fallback (kind : Fallback) (coversEmpty : Bool)
  | trim (fromEnd longest : Bool)
  | other
  deriving DecidableEq, Repr

def fallbackOf? : Char → Option Fallback
  | '-' => some .word
  | '=' => some .assigned
  | '?' => some .complaint
  | '+' => some .alternative
  | _ => none

def dropUncounted : Reader Unit := modify fun s => { s with rest := s.rest.drop 1 }

def readMark : Reader Mark := do
  match ← peek with
  | none => return .other
  | some c => do
      dropUncounted
      if c = '}' then return .closing
      else if c = '#' then return .trim false (← accept '#')
      else if c = '%' then return .trim true (← accept '%')
      else if c = ':' then do
        match (← peek).bind fallbackOf? with
        | some kind => do
            advance
            return .fallback kind true
        | none => do
            advance
            return .other
      else
        match fallbackOf? c with
        | some kind => return .fallback kind false
        | none => return .other

def asksLength : Text → Bool
  | c :: d :: _ => isNameChar c || (isSpecial c && d = '}')
  | [c] => isNameChar c
  | [] => false

def isArgumentList : List Part → Bool
  | [.parameter ['@'] .value true] => true
  | _ => false

def marked (parts : List Part) : List Part :=
  if isArgumentList parts then parts else .mark :: parts

mutual

/-- Reads a stretch up to its end, which is taken unless it ends a word. `done` holds the parts
before, last one first. In the name of a here-document nothing stands for something else. -/
def readStretch (nested : Nested) (isName : Bool) :
    Nat → Stretch → List Part → Reader (List Part)
  | 0, stretch, _ => fail stretch.complaint
  | fuel + 1, stretch, done => do
      let goOn (parts : List Part) : Reader (List Part) :=
        readStretch nested isName fuel stretch (parts.reverse ++ done)
      match ← peek with
      | none =>
          if stretch = .bare ∨ stretch = .document then return done.reverse
          else fail stretch.complaint
      | some c =>
          if stretch = .bare ∧ endsWord c then return done.reverse
          else do
            advance
            match c, stretch with
            | '\\', _ => do
                match (← get).rest.head? with
                | none => goOn [.char '\\' true]
                | some d => do
                    advance
                    if stretch.escapes d then goOn [.char d true]
                    else goOn [.char '\\' true, .char d true]
            | '\'', .bare => goOn (← readSingleQuotes)
            | '\'', .braces => goOn (← readSingleQuotes)
            | '"', .bare => goOn (marked (← readStretch nested isName fuel .quotes []))
            | '"', .braces => goOn (marked (← readStretch nested isName fuel .quotesInBraces []))
            | '"', .quotedBraces => goOn (← readStretch nested isName fuel .quotesInBraces [])
            | '"', .quotes => return done.reverse
            | '"', .quotesInBraces => return done.reverse
            | '"', .arithmetic _ => goOn []
            | '}', .braces => return done.reverse
            | '}', .quotedBraces => return done.reverse
            | '(', .arithmetic depth =>
                readStretch nested isName fuel (.arithmetic (depth + 1)) (.char c true :: done)
            | ')', .arithmetic 0 =>
                if ← accept ')' then return done.reverse else goOn [.char c true]
            | ')', .arithmetic (depth + 1) =>
                readStretch nested isName fuel (.arithmetic depth) (.char c true :: done)
            | '$', _ =>
                if isName then goOn [.char c stretch.isQuoted]
                else goOn [← readDollar nested fuel stretch]
            | '`', _ =>
                if isName then goOn [.char c true]
                else goOn [← readOldSubstitution nested stretch.isQuoted]
            | _, _ => goOn [.char c stretch.isQuoted]

def readDollar (nested : Nested) : Nat → Stretch → Reader Part
  | 0, stretch => fail stretch.complaint
  | fuel + 1, stretch => do
      match ← peek with
      | some '(' => do
          advance
          if ← accept '(' then
            let expression ← readStretch nested false fuel (.arithmetic 0) []
            return .arithmetic expression stretch.isQuoted
          else readSubstitution nested stretch.isQuoted
      | some '{' => do
          advance
          readBraces nested fuel stretch
      | some c =>
          if isNameStart c then
            return .parameter (← Reader.takeWhile isNameChar fuel) .value stretch.isQuoted
          else if isSpecial c then do
            advance
            return .parameter [c] .value stretch.isQuoted
          else return .char '$' stretch.isQuoted
      | none => return .char '$' stretch.isQuoted

def readBraces (nested : Nested) : Nat → Stretch → Reader Part
  | 0, stretch => fail stretch.complaint
  | fuel + 1, stretch => do
      skipJoins
      let rest := (← get).rest
      if rest.head? = some '#' ∧ asksLength (rest.drop 1) then
        advance
        let name ← readName fuel
        if ← accept '}' then return .parameter name .length stretch.isQuoted
        else do
          let _ ← readStretch nested false fuel stretch.inBraces []
          return .parameter name .malformed stretch.isQuoted
      else
        let name ← readName fuel
        if name = [] then
          if (← peek) = some '\n' then dropUncounted
          let _ ← readStretch nested false fuel stretch.inBraces []
          return .parameter name .malformed stretch.isQuoted
        else
          match ← readMark with
          | .closing => return .parameter name .value stretch.isQuoted
          | .fallback kind coversEmpty => do
              let word ← readStretch nested false fuel stretch.inBraces []
              return .parameter name (.fallback kind coversEmpty word) stretch.isQuoted
          | .trim fromEnd longest => do
              let pattern ← readStretch nested false fuel .braces []
              return .parameter name (.trim fromEnd longest pattern) stretch.isQuoted
          | .other => do
              let _ ← readStretch nested false fuel stretch.inBraces []
              return .parameter name .malformed stretch.isQuoted

end

def plainText? : List Part → Option Text
  | [] => some []
  | .char c false :: parts => (plainText? parts).map (c :: ·)
  | _ => none

def wordFuel : Reader Nat := do return 4 * (← get).rest.length + 8

def readWord (nested : Nested) (isName : Bool) : Reader (List Part) := do
  readStretch nested isName (← wordFuel) .bare []

def readDocumentBody (nested : Nested) : Reader (List Part) := do
  readStretch nested false (← wordFuel) .document []

end Reader

end ScriptWeave.Shell
