import ScriptWeave.Shell.Reader.Word

namespace ScriptWeave.Shell

namespace Reader

def keywords : List Text := [
  "!", "case", "do", "done", "elif", "else", "esac", "fi", "for", "if", "in", "then", "until",
  "while", "\x7b", "\x7d"]

namespace Token

def inQuotes (t : Text) : Text := ['"'] ++ t ++ ['"']

def name : Token → Text
  | .word _ _ => "word"
  | .keyword k => inQuotes k
  | .operator o => inQuotes o
  | .redirection _ _ => "redirection"
  | .newline => "newline"
  | .stop => "end of file"

end Token

def unexpected {α : Type} (t : Token) (wanted : Option Token) : Reader α :=
  let hint : Text := match wanted with
    | some w => " (expecting " ++ Token.name w ++ ")"
    | none => []
  fail (Token.name t ++ " unexpected" ++ hint)

def isContinued (line : Text) : Bool := (line.reverse.takeWhile (· = '\\')).length % 2 = 1

/-- The body of a here-document at the start of a text, and the text behind it. A line that another
one goes on with does not end the body. -/
def takeBody (d : AwaitedDocument) : Nat → Bool → Text → Text × Text
  | 0, _, t => ([], t)
  | fuel + 1, goesOn, t =>
      let t := if d.dropsTabs && !goesOn then t.dropWhile (· = '\t') else t
      let line := t.takeWhile (· ≠ '\n')
      match t.drop line.length with
      | [] => (if line = d.closing && !goesOn then [] else line, [])
      | _ :: rest =>
          if line = d.closing && !goesOn then ([], rest)
          else
            let (body, rest) := takeBody d fuel (!d.isLiteral && isContinued line) rest
            (line ++ '\n' :: body, rest)

/-- The complaint about a body that ends too early. Commands in it would go on up to the last line,
anything else only up to the line behind the body. -/
def bodyFault (line last : Nat) (message : Text) : SyntaxFault :=
  if message = "Missing '))'".toList then ⟨line, message⟩
  else if message = Stretch.complaint .quotes then ⟨line, Stretch.complaint .braces⟩
  else ⟨last, message⟩

def readDocument (nested : Nested) (d : AwaitedDocument) : Reader Unit := do
  let s ← get
  let (body, rest) := takeBody d (s.rest.length + 1) false s.rest
  let line := s.line + (s.rest.take (s.rest.length - rest.length)).count '\n'
  let parts ←
    if d.isLiteral then pure (body.map (.char · true))
    else
      match (within s.line body (readDocumentBody nested)).run s with
      | .ok (parts, s) => do
          set s
          pure parts
      | .error fault => throw (bodyFault line (line + rest.count '\n') fault.message)
  modify fun s => { s with
    rest
    line
    documents := (d.number, parts) :: s.documents }

def readDocuments (nested : Nested) : List AwaitedDocument → Reader Unit
  | [] => return ()
  | d :: ds => do
      readDocument nested d
      readDocuments nested ds

def skipBlanks : Nat → Reader Unit
  | 0 => return ()
  | fuel + 1 => do
      match ← peek with
      | some c =>
          if c = ' ' ∨ c = '\t' then
            advance
            skipBlanks fuel
          else if c = '#' then modify fun s => { s with rest := s.rest.dropWhile (· ≠ '\n') }
          else return ()
      | none => return ()

def readOperator (c second : Char) : Reader Token := do
  if ← accept second then return .operator [c, second] else return .operator [c]

def readRedirectionMark (descriptor : Option Nat) : Reader Token := do
  if ← accept '>' then
    for c in ['>', '|', '&'] do
      if ← accept c then return .redirection descriptor ['>', c]
    return .redirection descriptor ['>']
  else
    advance
    if ← accept '<' then
      if ← accept '-' then return .redirection descriptor ['<', '<', '-']
      else return .redirection descriptor ['<', '<']
    for c in ['&', '>'] do
      if ← accept c then return .redirection descriptor ['<', c]
    return .redirection descriptor ['<']

def isRedirectionStart (c : Char) : Bool := c = '<' || c = '>'

def readWordToken (nested : Nested) (isName : Bool) : Reader Token := do
  let parts ← readWord nested isName
  match parts, ← peek with
  | [.char d false], some c =>
      if d.isDigit ∧ isRedirectionStart c then
        readRedirectionMark (some (d.toNat - '0'.toNat))
      else return .word parts (some [d])
  | _, _ => return .word parts (plainText? parts)

def readToken (nested : Nested) (isName : Bool) : Reader Token := do
  let s ← get
  match s.pushed with
  | some t => do
      set { s with pushed := none }
      return t
  | none => do
      skipBlanks (s.rest.length + 1)
      match ← peek with
      | none => return .stop
      | some c =>
          if c = '\n' then do
            advance
            let awaited := (← get).awaited
            modify fun s => { s with awaited := [] }
            readDocuments nested awaited
            return .newline
          else if c = '&' ∨ c = '|' ∨ c = ';' then do
            advance
            readOperator c c
          else if c = '(' ∨ c = ')' then do
            advance
            return .operator [c]
          else if isRedirectionStart c then readRedirectionMark none
          else readWordToken nested isName

structure Expecting where
  skipsNewlines : Bool := false
  keywords : Bool := false
  aliases : Bool := false

def Expecting.command : Expecting := ⟨true, true, true⟩

def aliasText? (s : Source) (name : Text) : Option Text :=
  if s.openAliases.any fun a => a.1 = name && a.2 ≤ s.rest.length then none
  else (s.aliases.find? fun a => a.1 = name).map (·.2)

/-- Whether an alias that ends in a blank was read to its end with the last token, so that the token
behind it may be one too. The lengths are those of the text before and after that token. -/
def isBehindBlank (s : Source) (before after : Nat) : Bool :=
  s.openAliases.any fun (name, length) =>
    length ≤ before && after < length &&
      (s.aliases.any fun a => a.1 = name && (a.2.getLast? = some ' ' || a.2.getLast? = some '\t'))

def next (nested : Nested) (expecting : Expecting) : Nat → Reader Token
  | 0 => readToken nested false
  | fuel + 1 => do
      let before := (← get).rest.length
      match ← readToken nested false with
      | .newline =>
          if expecting.skipsNewlines then next nested expecting fuel else return .newline
      | .word parts (some t) =>
          if expecting.keywords ∧ t ∈ Reader.keywords then return .keyword t
          else if expecting.aliases || isBehindBlank (← get) before (← get).rest.length then
            match aliasText? (← get) t with
            | some value => do
                modify fun s => { s with
                  rest := value ++ s.rest
                  openAliases := (t, s.rest.length) :: s.openAliases }
                next nested expecting fuel
            | none => return .word parts (some t)
          else return .word parts (some t)
      | t => return t

end Reader

def specialNames : List Text := [
  ".", ":", "break", "continue", "eval", "exec", "exit", "export", "local", "readonly", "return",
  "set", "shift", "times", "trap", "unset"]

inductive Line where
  | commands (c : Command)
  | blank
  | stop

namespace Reader

/-- Where a list of commands ends, and whether it may be empty. -/
inductive ListKind where
  | line
  | filled
  | optional
  deriving DecidableEq, Repr

def listEnds : List Text := [")", ";;", "do", "done", "elif", "else", "esac", "fi", "then", "\x7d"]

def Token.endsList : Token → Bool
  | .keyword k => k ∈ listEnds
  | .operator o => o ∈ listEnds
  | .stop => true
  | _ => false

def Token.isKeyword (k : Text) : Token → Bool
  | .keyword k' => k = k'
  | _ => false

def Token.isOperator (o : Text) : Token → Bool
  | .operator o' => o = o'
  | _ => false

def expectKeyword (t : Token) (k : Text) : Reader Unit :=
  if Token.isKeyword k t then return () else unexpected t (some (.keyword k))

def expectOperator (t : Token) (o : Text) : Reader Unit :=
  if Token.isOperator o t then return () else unexpected t (some (.operator o))

def splitAssignment? (name : Text) : List Part → Option (Text × List Part)
  | .char '=' false :: value => if isName name.reverse then some (name.reverse, value) else none
  | .char c false :: parts => if isNameChar c then splitAssignment? (c :: name) parts else none
  | _ => none

def unquote (parts : List Part) : Text := parts.filterMap fun
  | .char c _ => some c
  | _ => none

def redirectionOf (descriptor : Option Nat) (o : Text) (target : List Part) : Redirection :=
  let input := descriptor.getD 0
  let output := descriptor.getD 1
  match o with
  | ['<'] => .file input .read target
  | ['<', '>'] => .file input .readWrite target
  | ['<', '&'] => .duplicate input target
  | ['>', '&'] => .duplicate output target
  | ['>', '>'] => .file output .append target
  | ['>', '|'] => .file output .overwrite target
  | _ => .file output .write target

def readRedirection (nested : Nested) (descriptor : Option Nat) (o : Text) :
    Reader Redirection := do
  let opensDocument := o = "<<".toList || o = "<<-".toList
  match ← readToken nested opensDocument with
  | .word parts plain =>
      if opensDocument then
        let s ← get
        let d : AwaitedDocument :=
          ⟨s.nextDocument, unquote parts, plain.isNone, o = "<<-".toList⟩
        set { s with nextDocument := s.nextDocument + 1, awaited := s.awaited ++ [d] }
        return .document (descriptor.getD 0) d.number
      else return redirectionOf descriptor o parts
  | t => unexpected t none

def readRedirections (nested : Nested) : Nat → Reader (List Redirection)
  | 0 => return []
  | fuel + 1 => do
      match ← next nested ⟨false, true, true⟩ fuel with
      | .redirection descriptor o => do
          let r ← readRedirection nested descriptor o
          return r :: (← readRedirections nested fuel)
      | t => do
          push t
          return []

def readWords (nested : Nested) : Nat → Reader (List Word × Token)
  | 0 => return ([], .stop)
  | fuel + 1 => do
      match ← next nested {} fuel with
      | .word parts _ => do
          let (words, t) ← readWords nested fuel
          return (parts :: words, t)
      | t => return ([], t)

def patternOf : Token → Word
  | .word parts _ => parts
  | .keyword k => k.map (.char · false)
  | _ => []

def readPatterns (nested : Nested) : Nat → Token → Reader (List Word)
  | 0, t => unexpected t none
  | fuel + 1, t => do
      match ← next nested {} fuel with
      | .operator ['|'] => do
          return patternOf t :: (← readPatterns nested fuel (← next nested {} fuel))
      | t' => do
          expectOperator t' ")"
          return [patternOf t]

/-- What a simple command has shown so far, in reverse order. -/
structure Draft where
  assignments : List (Text × Word) := []
  words : List (Word × Option Text) := []
  redirections : List Redirection := []

def Draft.finish (d : Draft) (line : Nat) : Command :=
  .simple line d.assignments.reverse (d.words.reverse.map (·.1)) d.redirections.reverse

def Draft.functionWord? (d : Draft) : Option (Option Text) :=
  match d.assignments, d.words, d.redirections with
  | [], [(_, plain)], [] => some plain
  | _, _, _ => none

def andThen (first : Option Command) (second : Command) : Command :=
  match first with
  | none => second
  | some c => .inOrder c second

mutual

def readList (fuel : Nat) (kind : ListKind) (done : Option Command) :
    Reader (Option Command) :=
  match fuel with
  | 0 => fail "end of file unexpected"
  | fuel + 1 => do
      match ← next (nested fuel) ⟨kind != .line, true, true⟩ fuel with
      | .newline => return done
      | .stop => do
          push .stop
          return done
      | t => do
          push t
          let mayEnd := kind = .optional || (kind = .filled && done.isSome)
          if mayEnd && Token.endsList t then return done
          else do
            let c ← readChain fuel
            match ← next (nested fuel) {} fuel with
            | .operator ['&'] => readList fuel kind (some (andThen done (.background c)))
            | .operator [';'] => readList fuel kind (some (andThen done c))
            | .newline => do
                push .newline
                readList fuel kind (some (andThen done c))
            | .stop => do
                push .stop
                return some (andThen done c)
            | t =>
                if kind = .line then unexpected t none
                else do
                  push t
                  return some (andThen done c)

def nested (fuel : Nat) : Nested :=
  match fuel with
  | 0 => ⟨fail "end of file unexpected", fail "end of file unexpected"⟩
  | fuel + 1 => {
      closed := do
        let c ← readList fuel .optional none
        expectOperator (← next (nested fuel) {} fuel) ")"
        return c
      whole := readList fuel .optional none }

def readChain (fuel : Nat) : Reader Command :=
  match fuel with
  | 0 => fail "end of file unexpected"
  | fuel + 1 => do
      let c ← readPipeline fuel {}
      continueChain fuel c

def continueChain (fuel : Nat) (c : Command) : Reader Command :=
  match fuel with
  | 0 => return c
  | fuel + 1 => do
      match ← next (nested fuel) {} fuel with
      | .operator ['&', '&'] => do continueChain fuel (.both c (← readPipeline fuel .command))
      | .operator ['|', '|'] => do continueChain fuel (.either c (← readPipeline fuel .command))
      | t => do
          push t
          return c

def readPipeline (fuel : Nat) (expecting : Expecting) : Reader Command :=
  match fuel with
  | 0 => fail "end of file unexpected"
  | fuel + 1 => do
      match ← next (nested fuel) expecting fuel with
      | .keyword ['!'] => do
          let c ← readCommand fuel ⟨false, true, true⟩
          return .inverted (← continuePipeline fuel [c])
      | t => do
          push t
          let c ← readCommand fuel expecting
          continuePipeline fuel [c]

def continuePipeline (fuel : Nat) (stages : List Command) : Reader Command :=
  match fuel with
  | 0 => fail "end of file unexpected"
  | fuel + 1 => do
      match ← next (nested fuel) {} fuel with
      | .operator ['|'] => do
          let c ← readCommand fuel .command
          continuePipeline fuel (c :: stages)
      | t => do
          push t
          match stages with
          | [c] => return c
          | stages => return .pipeline stages.reverse

def readCommand (fuel : Nat) (expecting : Expecting) : Reader Command :=
  match fuel with
  | 0 => fail "end of file unexpected"
  | fuel + 1 => do
      let line := (← get).line
      let compound (c : Command) : Reader Command := do
        match c, ← readRedirections (nested fuel) fuel with
        | c, [] => return c
        | .subshell line body _, redirections => return .subshell line body redirections
        | c, redirections => return .redirected line c redirections
      match ← next (nested fuel) expecting fuel with
      | .keyword ['i', 'f'] => do compound (← readBranch fuel)
      | .keyword ['w', 'h', 'i', 'l', 'e'] => do compound (← readLoop fuel true)
      | .keyword ['u', 'n', 't', 'i', 'l'] => do compound (← readLoop fuel false)
      | .keyword ['f', 'o', 'r'] => do compound (← readFor fuel line)
      | .keyword ['c', 'a', 's', 'e'] => do compound (← readChoice fuel line)
      | .operator ['('] => do
          let body ← readBody fuel
          expectOperator (← next (nested fuel) {} fuel) ")"
          compound (.subshell line body [])
      | .keyword ['\x7b'] => do
          let body ← readBody fuel
          expectKeyword (← next (nested fuel) {} fuel) "\x7d"
          compound body
      | .word parts plain => do
          push (.word parts plain)
          readSimple fuel (← get).line true {}
      | .redirection descriptor o => do
          push (.redirection descriptor o)
          readSimple fuel (← get).line true {}
      | t => unexpected t none

/-- A list of commands inside a command. At the end of the text there may be none, which is
complained about where the command goes on. -/
def readBody (fuel : Nat) : Reader Command :=
  match fuel with
  | 0 => fail "end of file unexpected"
  | fuel + 1 => do
      match ← readList fuel .filled none with
      | some c => return c
      | none => return .simple 0 [] [] []

def readBranch (fuel : Nat) : Reader Command :=
  match fuel with
  | 0 => fail "end of file unexpected"
  | fuel + 1 => do
      let condition ← readBody fuel
      expectKeyword (← next (nested fuel) {} fuel) "then"
      let yes ← readBody fuel
      match ← next (nested fuel) {} fuel with
      | .keyword ['e', 'l', 'i', 'f'] => return .branch condition yes (some (← readBranch fuel))
      | .keyword ['e', 'l', 's', 'e'] => do
          let no ← readBody fuel
          expectKeyword (← next (nested fuel) {} fuel) "fi"
          return .branch condition yes (some no)
      | t => do
          expectKeyword t "fi"
          return .branch condition yes none

def readLoop (fuel : Nat) (goal : Bool) : Reader Command :=
  match fuel with
  | 0 => fail "end of file unexpected"
  | fuel + 1 => do
      let condition ← readBody fuel
      expectKeyword (← next (nested fuel) {} fuel) "do"
      let body ← readBody fuel
      expectKeyword (← next (nested fuel) {} fuel) "done"
      return .loop goal condition body

def readFor (fuel : Nat) (line : Nat) : Reader Command :=
  match fuel with
  | 0 => fail "end of file unexpected"
  | fuel + 1 => do
      let name ← match ← next (nested fuel) {} fuel with
        | .word _ (some t) => if isName t then pure t else fail "Bad for loop variable"
        | _ => fail "Bad for loop variable"
      let words ← match ← next (nested fuel) .command fuel with
        | .keyword ['i', 'n'] => do
            let (words, t) ← readWords (nested fuel) fuel
            match t with
            | .newline => pure words
            | .operator [';'] => pure words
            | t => unexpected t none
        | .operator [';'] => pure [[.parameter ['@'] .value true]]
        | t => do
            push t
            pure [[.parameter ['@'] .value true]]
      expectKeyword (← next (nested fuel) .command fuel) "do"
      let body ← readBody fuel
      expectKeyword (← next (nested fuel) {} fuel) "done"
      return .forEach line name words body

def readChoice (fuel : Nat) (line : Nat) : Reader Command :=
  match fuel with
  | 0 => fail "end of file unexpected"
  | fuel + 1 => do
      match ← next (nested fuel) {} fuel with
      | .word subject _ => do
          expectKeyword (← next (nested fuel) .command fuel) "in"
          let t ← next (nested fuel) ⟨true, true, false⟩ fuel
          return .choice line subject (← readBranches fuel t)
      | t => unexpected t (some (.word [] none))

def readBranches (fuel : Nat) (t : Token) :
    Reader (List (List Word × Option Command)) :=
  match fuel with
  | 0 => unexpected t none
  | fuel + 1 => do
      if Token.isKeyword "esac" t then return []
      else
        let first ← if Token.isOperator "(" t then next (nested fuel) {} fuel else pure t
        let patterns ← readPatterns (nested fuel) fuel first
        let body ← readList fuel .optional none
        let branch := (patterns, body)
        match ← next (nested fuel) ⟨true, true, false⟩ fuel with
        | .operator [';', ';'] => do
            let t ← next (nested fuel) ⟨true, true, false⟩ fuel
            return branch :: (← readBranches fuel t)
        | t =>
            if Token.isKeyword "esac" t then return [branch]
            else unexpected t (some (.operator ";;"))

def readSimple (fuel : Nat) (line : Nat) (isFirst : Bool) (d : Draft) : Reader Command :=
  match fuel with
  | 0 => return d.finish line
  | fuel + 1 => do
      match ← next (nested fuel) ⟨false, false, isFirst⟩ fuel with
      | .word parts plain =>
          match if isFirst then splitAssignment? [] parts else none with
          | some assignment =>
              readSimple fuel line true { d with assignments := assignment :: d.assignments }
          | none => readSimple fuel line false { d with words := (parts, plain) :: d.words }
      | .redirection descriptor o => do
          let r ← readRedirection (nested fuel) descriptor o
          readSimple fuel line isFirst { d with redirections := r :: d.redirections }
      | t =>
          match Token.isOperator "(" t, d.functionWord? with
          | true, some plain => do
              expectOperator (← next (nested fuel) {} fuel) ")"
              match plain with
              | some name =>
                  if isName name ∧ name ∉ specialNames then do
                    let line := (← get).line
                    return .define line name (← readCommand fuel .command)
                  else fail "Bad function name"
              | none => fail "Bad function name"
          | _, _ => do
              push t
              return d.finish line

end

def fuelOf (t : Text) : Nat := 8 * t.length + 64

def readLine : Reader Line := do
  let s ← get
  match ← readList (fuelOf s.rest) .line none with
  | some c => return .commands c
  | none =>
      match (← get).pushed with
      | some .stop => return .stop
      | _ => return .blank

end Reader

end ScriptWeave.Shell
