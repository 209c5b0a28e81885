import ScriptWeave.Shell.Pattern

namespace ScriptWeave.Shell

inductive Regular where
  | empty
  | char (c : Char)
  | any
  | set (isInverted : Bool) (items : List SetItem)
  | place (holds : Option Char → Option Char → Bool)
  | group (number : Nat) (r : Regular)
  | again (number : Nat)
  | inOrder (a b : Regular)
  | either (a b : Regular)
  | times (least : Nat) (most : Option Nat) (r : Regular)

structure Spot where
  before : Text := []
  rest : Text
  groups : List (Nat × Text) := []
  deriving DecidableEq, Repr

namespace Spot

def upTo (s e : Spot) : Text := s.rest.take (s.rest.length - e.rest.length)

def advance (s : Spot) (count : Nat) : Spot := { s with
  before := (s.rest.take count).reverse ++ s.before
  rest := s.rest.drop count }

def step (s : Spot) (holds : Char → Bool) : List Spot :=
  match s.rest with
  | c :: _ => if holds c then [s.advance 1] else []
  | [] => []

def keep (s e : Spot) (number : Nat) : Spot :=
  { e with groups := (number, s.upTo e) :: e.groups.filter (·.1 ≠ number) }

def distinct : List Spot → List Spot
  | [] => []
  | s :: ss => s :: (distinct ss).filter (·.rest.length ≠ s.rest.length)

end Spot

namespace Regular

def groupCount : Regular → Nat
  | .group _ r => groupCount r + 1
  | .times _ _ r => groupCount r
  | .inOrder a b | .either a b => groupCount a + groupCount b
  | _ => 0

def forms (caseless : Bool) (c : Char) : List Char :=
  if caseless then [c, c.toLower, c.toUpper] else [c]

def isSame (caseless : Bool) (c d : Char) : Bool := d ∈ forms caseless c

def repeated (go : Spot → List Spot) : Nat → Nat → Option Nat → Spot → List Spot
  | 0, _, _, _ => []
  | fuel + 1, least, most, s =>
      let further :=
        if most = some 0 then []
        else
          let next := (go s).filter fun e => 0 < least || e.rest.length < s.rest.length
          next.flatMap (repeated go fuel (least - 1) (most.map (· - 1)))
      Spot.distinct (if least = 0 then further ++ [s] else further)

def ends (caseless : Bool) : Regular → Spot → List Spot
  | .empty, s => [s]
  | .char c, s => s.step (isSame caseless c)
  | .any, s => s.step fun _ => true
  | .set isInverted items, s =>
      s.step fun d => (forms caseless d).any (fun d => items.any (·.holds d)) != isInverted
  | .place holds, s => if holds s.before.head? s.rest.head? then [s] else []
  | .group number r, s => (ends caseless r s).map (s.keep · number)
  | .again number, s =>
      match s.groups.find? fun g => g.1 = number with
      | some (_, t) =>
          let isThere := t.length ≤ s.rest.length && (t.zip s.rest).all fun (c, d) => isSame caseless c d
          if isThere then [s.advance t.length] else []
      | none => []
  | .inOrder a b, s => Spot.distinct ((ends caseless a s).flatMap (ends caseless b))
  | .either a b, s => Spot.distinct (ends caseless a s ++ ends caseless b s)
  | .times least most r, s =>
      repeated (ends caseless r) (s.rest.length + least + 1) least most s

def fit? (caseless : Bool) (r : Regular) (s : Spot) : Option Spot :=
  (ends caseless r s).foldl (fun best e =>
    match best with
    | some b => if e.rest.length < b.rest.length then some e else best
    | none => some e) none

def search? (caseless : Bool) (r : Regular) : Nat → Spot → Option (Spot × Spot)
  | 0, _ => none
  | fuel + 1, s =>
      match r.fit? caseless s with
      | some e => some (s, e)
      | none => if s.rest = [] then none else search? caseless r fuel (s.advance 1)

def find? (caseless : Bool) (r : Regular) (s : Spot) : Option (Spot × Spot) :=
  r.search? caseless (s.rest.length + 1) s

def isIn (caseless : Bool) (r : Regular) (line : Text) : Bool :=
  (r.find? caseless { rest := line }).isSome

/-- The fits of a line one behind the other, with what stands in front of each, and what is left
behind the last one. A fit of nothing does not count directly behind another one. -/
def findAll (caseless : Bool) (r : Regular) : Nat → Bool → Text → Spot →
    List (Text × Spot × Spot) × Text
  | 0, _, passed, s => ([], passed.reverse ++ s.rest)
  | fuel + 1, isBehind, passed, s =>
      match r.find? caseless s with
      | none => ([], passed.reverse ++ s.rest)
      | some (start, stop) =>
          let lead := passed.reverse ++ s.upTo start
          if start.rest.length = stop.rest.length then
            let isRepeat := isBehind && start.rest.length = s.rest.length
            match start.rest with
            | [] => if isRepeat then ([], lead) else ([(lead, start, stop)], [])
            | c :: _ =>
                let next := { start.advance 1 with groups := [] }
                if isRepeat then findAll caseless r fuel false (c :: lead.reverse) next
                else
                  let (fits, rest) := findAll caseless r fuel false [c] next
                  ((lead, start, stop) :: fits, rest)
          else
            let (fits, rest) := findAll caseless r fuel true [] { stop with groups := [] }
            ((lead, start, stop) :: fits, rest)

inductive Token where
  | atom (r : Regular)
  | times (least : Nat) (most : Option Nat)
  | star
  | start
  | finish
  | openGroup
  | closeGroup
  | bar

inductive Fault where
  | openSet
  | openGroup
  | closeGroup
  | openBrace
  | badBrace
  | noGroup
  | backslash
  deriving DecidableEq, Repr

def Fault.message : Fault → Text
  | .openSet => "Unmatched [, [^, [:, [., or [="
  | .openGroup => "Unmatched ( or \\("
  | .closeGroup => "Unmatched ) or \\)"
  | .openBrace => "Unmatched \x7b or \\\x7b"
  | .badBrace => "Invalid content of \\\x7b\\\x7d"
  | .noGroup => "Invalid back reference"
  | .backslash => "Trailing backslash"

def isWordChar (c : Char) : Bool := c.isAlphanum || c = '_'

def wordPlace (leftIn rightIn : Option Bool) : Regular := .place fun a b =>
  let left := a.any isWordChar
  let right := b.any isWordChar
  left != right && leftIn.all (· = left) && rightIn.all (· = right)

def ofLetter : Char → Option Regular
  | 'w' => some (.set false [.kind isWordChar])
  | 'W' => some (.set true [.kind isWordChar])
  | 's' => some (.set false [.kind fun c => c = ' ' || ('\t' ≤ c && c ≤ '\r')])
  | 'S' => some (.set true [.kind fun c => c = ' ' || ('\t' ≤ c && c ≤ '\r')])
  | 'b' => some (wordPlace none none)
  | '<' => some (wordPlace (some false) (some true))
  | '>' => some (wordPlace (some true) (some false))
  | 'B' => some (.place fun a b => a.any isWordChar = b.any isWordChar)
  | 'n' => some (.char '\n')
  | 't' => some (.char '\t')
  | _ => none

def readBrace (closing : Text) (t : Text) : Except Fault (Token × Text) :=
  let least := t.takeWhile Char.isDigit
  let number (digits : Text) : Nat :=
    digits.foldl (fun n d => 10 * n + (d.toNat - '0'.toNat)) 0
  let (most, rest) := match t.drop least.length with
    | ',' :: rest =>
        let digits := rest.takeWhile Char.isDigit
        (if digits = [] then none else some (number digits), rest.drop digits.length)
    | rest => (some (number least), rest)
  match Text.afterPrefix? closing rest with
  | some rest =>
      if most.any (· < number least) then .error .badBrace
      else .ok (.times (number least) most, rest)
  | none => .error (if rest = [] then .openBrace else .badBrace)

def readSet (t : Text) : Except Fault (Token × Text) :=
  let isInverted := t.head? = some '^'
  let rec glyphs : Text → List Glyph
    | '\\' :: 'n' :: rest => ⟨'\n', true⟩ :: glyphs rest
    | '\\' :: 't' :: rest => ⟨'\t', true⟩ :: glyphs rest
    | c :: rest => ⟨c, false⟩ :: glyphs rest
    | [] => []
  let gs := glyphs (if isInverted then t.drop 1 else t)
  match Pattern.readItems? (gs.length + 1) true gs with
  | some (items, rest) => .ok (.atom (.set isInverted items), t.drop (t.length - rest.length))
  | none => .error .openSet

def readOperator (closing : Text) (c : Char) (rest : Text) : Except Fault (Token × Text) :=
  match c with
  | '+' => .ok (.times 1 none, rest)
  | '?' => .ok (.times 0 (some 1), rest)
  | '|' => .ok (.bar, rest)
  | '(' => .ok (.openGroup, rest)
  | ')' => .ok (.closeGroup, rest)
  | _ => readBrace closing rest

def isOperator (c : Char) : Bool := c ∈ ['+', '?', '|', '(', ')', '{']

def readEscaped (isExtended : Bool) (c : Char) (rest : Text) : Except Fault (Token × Text) :=
  if isOperator c && !isExtended then readOperator "\\\x7d" c rest
  else if c.isDigit && c ≠ '0' then .ok (.atom (.again (c.toNat - '0'.toNat)), rest)
  else .ok (.atom ((ofLetter c).getD (.char c)), rest)

def isAtStart : List Token → Bool
  | [] | .openGroup :: _ | .bar :: _ => true
  | _ => false

def isAtEnd (t : Text) : Bool :=
  t = [] || "\\)".toList.isPrefixOf t || "\\|".toList.isPrefixOf t

def readTokens (isExtended : Bool) : Nat → List Token → Text → Except Fault (List Token)
  | 0, done, _ => .ok done.reverse
  | _ + 1, done, [] => .ok done.reverse
  | fuel + 1, done, c :: rest => do
      let (token, rest) ←
        match c, rest with
        | '\\', [] => .error .backslash
        | '\\', d :: rest => readEscaped isExtended d rest
        | '[', rest => readSet rest
        | '.', rest => .ok (.atom .any, rest)
        | '*', rest => .ok (.star, rest)
        | '^', rest =>
            .ok (if isExtended || isAtStart done then .start else .atom (.char '^'), rest)
        | '$', rest =>
            .ok (if isExtended || isAtEnd rest then .finish else .atom (.char '$'), rest)
        | c, rest =>
            if isExtended && isOperator c then readOperator ['}'] c rest
            else .ok (.atom (.char c), rest)
      readTokens isExtended fuel (token :: done) rest

/-- What was read, what is left, and how many groups were opened. -/
abbrev Reading := Except Fault (Regular × List Token × Nat)

def readTimes (r : Regular) : List Token → Regular × List Token
  | .star :: rest => readTimes (.times 0 none r) rest
  | .times least most :: rest => readTimes (.times least most r) rest
  | rest => (r, rest)

mutual

def readBranches (fuel groups : Nat) (tokens : List Token) : Reading :=
  match fuel with
  | 0 => .error .openGroup
  | fuel + 1 => do
      let (a, rest, groups) ← readBranch fuel groups .empty tokens
      match rest with
      | .bar :: rest => do
          let (b, rest, groups) ← readBranches fuel groups rest
          return (.either a b, rest, groups)
      | rest => return (a, rest, groups)

def readBranch (fuel groups : Nat) (done : Regular) (tokens : List Token) : Reading :=
  match fuel with
  | 0 => .error .openGroup
  | fuel + 1 =>
      let goOn (r : Regular) (groups : Nat) (rest : List Token) : Reading :=
        let (r, rest) := readTimes r rest
        readBranch fuel groups (.inOrder done r) rest
      match tokens with
      | [] | .bar :: _ | .closeGroup :: _ => .ok (done, tokens, groups)
      | .atom r :: rest => goOn r groups rest
      | .star :: rest => goOn (.char '*') groups rest
      | .times _ _ :: rest => goOn .empty groups rest
      | .start :: rest =>
          readBranch fuel groups (.inOrder done (.place fun a _ => a.isNone)) rest
      | .finish :: rest =>
          readBranch fuel groups (.inOrder done (.place fun _ b => b.isNone)) rest
      | .openGroup :: rest => do
          let number := groups + 1
          match ← readBranches fuel number rest with
          | (r, .closeGroup :: rest, groups) => goOn (.group number r) groups rest
          | _ => .error .openGroup

end

def knowsGroups (count : Nat) : Regular → Bool
  | .again n => n ≤ count
  | .group _ r | .times _ _ r => knowsGroups count r
  | .inOrder a b | .either a b => knowsGroups count a && knowsGroups count b
  | _ => true

def read (isExtended : Bool) (t : Text) : Except Fault Regular := do
  let tokens ← readTokens isExtended (t.length + 1) [] t
  match ← readBranches (2 * tokens.length + 2) 0 tokens with
  | (r, [], groups) => if knowsGroups groups r then return r else .error .noGroup
  | _ => .error .closeGroup

def ofText (t : Text) : Regular := t.foldr (fun c r => .inOrder (.char c) r) .empty

end Regular

end ScriptWeave.Shell
