import ScriptWeave.Header.Token

namespace ScriptWeave.Header

open Text

inductive Point where
  | opening
  | target
  /-- Behind the first name, which may turn out to be an alias. -/
  | firstName
  | name (depth : Nat)
  /-- Behind the first word of a qualified name, which may turn out to be its qualifier. -/
  | headName (depth : Nat)
  | part (depth : Nat)
  | partName (depth : Nat)
  | closedList (depth : Nat)
  | suffix (depth : Nat)
  | rank (depth : Nat)
  | aliasWord
  | aliasTarget
  | aliasName
  deriving DecidableEq, Repr

namespace Point

def afterArgument : Nat → Symbol → Option Point
  | depth + 1, .comma => some (.name (depth + 1))
  | depth + 1, .greater => some (.closedList depth)
  | depth + 1, .openBracket => some (.rank (depth + 1))
  | _, _ => none

def afterPart (depth : Nat) : Symbol → Option Point
  | .dot => some (.part depth)
  | .question => if depth = 0 then none else some (.suffix depth)
  | s => afterArgument depth s

def afterWord (depth : Nat) : Symbol → Option Point
  | .less => some (.name (depth + 1))
  | s => afterPart depth s

def next : Point → Token → Option Point
  | .opening, .word w => if w = "static".toList then some .target else some .firstName
  | .target, .word _ => some .firstName
  | .firstName, .symbol .doubleColon => some (.part 0)
  | .firstName, .symbol .equals => some (.name 0)
  | .firstName, .symbol s => afterWord 0 s
  | .name depth, .word _ => some (.headName depth)
  | .headName depth, .symbol .doubleColon => some (.part depth)
  | .headName depth, .symbol s => afterWord depth s
  | .part depth, .word _ => some (.partName depth)
  | .partName depth, .symbol s => afterWord depth s
  | .closedList depth, .symbol s => afterPart depth s
  | .suffix depth, .symbol s => afterArgument depth s
  | .rank depth, .symbol .comma => some (.rank depth)
  | .rank depth, .symbol .closeBracket => some (.suffix depth)
  | .aliasWord, .word w => if w = "alias".toList then some .aliasTarget else none
  | .aliasTarget, .word _ => some .aliasName
  | _, _ => none

def mayEnd : Point → Bool
  | .firstName | .aliasName => true
  | .headName depth | .partName depth | .closedList depth => depth == 0
  | _ => false

/-- Whether a symbol can follow at a point of this kind in some declaration. A symbol that can is
read as a token of its own even where the declaration at hand does not allow it. -/
def offers : Point → Symbol → Bool
  | .firstName, s => s = .doubleColon || s = .equals || s = .dot || s = .less || s = .semicolon
  | .headName _, s => s != .equals && s != .closeBracket
  | .partName _, s => s != .equals && s != .closeBracket && s != .doubleColon
  | .closedList _, s =>
      s != .equals && s != .closeBracket && s != .doubleColon && s != .less
  | .suffix _, s => s = .comma || s = .greater || s = .openBracket
  | .rank _, s => s = .comma || s = .closeBracket
  | .aliasName, s => s = .semicolon
  | _, _ => false

end Point

inductive Cause where
  | unexpected (quoted : Text)
  | endOfInput
  deriving DecidableEq, Repr

/-- A declaration that breaks off, with the text that begins at the offending token. -/
structure Fault where
  here : Text
  cause : Cause
  deriving DecidableEq, Repr

def Cause.reason : Cause → Text
  | .unexpected quoted => "unexpected token '" ++ quoted ++ "' in header declaration"
  | .endOfInput => "unexpected end of input in header declaration"

/-- What a complaint quotes where no token is offered: the name that stands there, and else the
whole text from there on, since none of it has been read. -/
def quoteUnread (here : Text) : Text :=
  match readName? here with
  | some (name, _) => name
  | none => here

def quoteSymbol (point : Point) (s : Symbol) (here : Text) : Text :=
  if point.offers s then s.toText else quoteUnread here

/-- The text behind the semicolon of a declaration of which the tokens up to `point` are read.
`last` begins at the last of them. -/
def finish (last : Text) (point : Point) : Tokens → Except Fault Text
  | .more here token tokens =>
      match point.next token with
      | some point => finish here point tokens
      | none =>
          match token with
          | .word w => .error ⟨here, .unexpected w⟩
          | .symbol s => .error ⟨here, .unexpected (quoteSymbol point s here)⟩
  | .closed here after =>
      if point.mayEnd then .ok after
      else .error ⟨here, .unexpected (quoteSymbol point .semicolon here)⟩
  | .stuck [] => .error ⟨last, .endOfInput⟩
  | .stuck here => .error ⟨here, .unexpected (quoteUnread here)⟩

def readDeclaration? (t : Text) : Option (Except Fault Text) :=
  match afterUsing? t with
  | some rest => some (finish t .opening (Tokens.read rest))
  | none =>
      match afterGlobal? t with
      | some rest =>
          let here := skipTrivia rest
          match afterUsing? here with
          | some rest => some (finish here .opening (Tokens.read rest))
          | none => some (.error ⟨here, .unexpected (quoteUnread here)⟩)
      | none =>
          match afterExtern? t with
          | some rest => some (finish t .aliasWord (Tokens.read rest))
          | none => none

end ScriptWeave.Header
