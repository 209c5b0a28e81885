import ScriptWeave.Shell.Session
import ScriptWeave.Text.Basic

namespace ScriptWeave.Shell.Arithmetic

inductive Operator where
  | times
  | divide
  | remainder
  | plus
  | minus
  | shiftLeft
  | shiftRight
  | less
  | lessOrEqual
  | greater
  | greaterOrEqual
  | equal
  | unequal
  | bitAnd
  | bitXor
  | bitOr
  deriving DecidableEq, Repr

inductive Fault where
  | operand
  | colon
  | parenthesis
  | ending
  deriving DecidableEq, Repr

def Fault.message : Fault → Text
  | .operand => "expecting primary"
  | .colon => "expecting ':'"
  | .parenthesis => "expecting ')'"
  | .ending => "expecting EOF"

/-- Expressions as far as they could be read: a fault stands where they break off, behind all that
has its value before the fault is found. -/
inductive Expression where
  | number (n : Int64)
  | variable (name : Text)
  | negated (e : Expression)
  | complement (e : Expression)
  | inverted (e : Expression)
  | binary (o : Operator) (a b : Expression)
  | both (a b : Expression)
  | either (a b : Expression)
  | choice (condition yes no : Expression)
  /-- The variable takes the value, or what the operator makes of its own value and that one. -/
  | assign (name : Text) (o : Option Operator) (value : Expression)
  | absent (fault : Fault)
  | broken (front : Expression) (fault : Fault)
  deriving Repr

def digitValue (c : Char) : Nat :=
  if c.isDigit then c.toNat - '0'.toNat
  else if 'a' ≤ c && c ≤ 'f' then c.toNat - 'a'.toNat + 10
  else if 'A' ≤ c && c ≤ 'F' then c.toNat - 'A'.toNat + 10
  else 36

def valueOf (base : Nat) (digits : Text) : Nat :=
  digits.foldl (fun n d => base * n + digitValue d) 0

def baseOf : Text → Nat × Text
  | '0' :: x :: d :: rest =>
      if (x = 'x' || x = 'X') && digitValue d < 16 then (16, d :: rest)
      else (8, '0' :: x :: d :: rest)
  | '0' :: rest => (8, '0' :: rest)
  | t => (10, t)

/-- The digits at the start of a text, as a number, and the text behind them. A leading zero stands
for base eight, and `0x` for sixteen, unless the base is given. -/
def readNatural? (base : Option Nat) (t : Text) : Option (Nat × Text) :=
  let (base, t) := match base with
    | some base => (base, t)
    | none => baseOf t
  match t.takeWhile (digitValue · < base) with
  | [] => none
  | digits => some (valueOf base digits, t.drop digits.length)

def largest : Int := 0x7fffffffffffffff

def smallest : Int := -0x8000000000000000

def clamp (n : Int) : Int := min largest (max smallest n)

def isBlank (c : Char) : Bool := c = ' ' || ('\t' ≤ c && c ≤ '\r')

def readInteger? (base : Option Nat) (t : Text) : Option (Int × Text) :=
  match t.dropWhile isBlank with
  | '-' :: digits => (readNatural? base digits).map fun (n, rest) => (-(n : Int), rest)
  | '+' :: digits => (readNatural? base digits).map fun (n, rest) => ((n : Int), rest)
  | digits => (readNatural? base digits).map fun (n, rest) => ((n : Int), rest)

def integer? (base : Option Nat) (t : Text) : Option Int :=
  match readInteger? base t with
  | some (n, rest) => if (rest.dropWhile isBlank).isEmpty && clamp n = n then some n else none
  | none => if base.isNone && (t.dropWhile isBlank).isEmpty then some 0 else none

inductive Token where
  | number (n : Int64)
  | name (t : Text)
  | operator (o : Text)
  deriving DecidableEq, Repr

def operators : List Text := [
  "<<=", ">>=", "<<", ">>", "<=", ">=", "==", "!=", "&&", "||", "*=", "/=", "%=", "+=", "-=", "&=",
  "^=", "|=", "<", ">", "=", "!", "&", "|", "*", "/", "%", "+", "-", "^", "~", "?", ":", "(",
  ")"].map String.toList

def operatorAt? (t : Text) : Option (Text × Text) :=
  operators.findSome? fun o => (Text.afterPrefix? o t).map (o, ·)

def isNameStart (c : Char) : Bool := c.isAlpha || c = '_'

def isNameChar (c : Char) : Bool := c.isAlphanum || c = '_'

def readToken (c : Char) (rest : Text) : Token × Text :=
  if isNameStart c then
    (.name (c :: rest.takeWhile isNameChar), rest.dropWhile isNameChar)
  else
    match readNatural? none (c :: rest), operatorAt? (c :: rest) with
    | some (n, rest), _ => (.number (Int64.ofInt (clamp n)), rest)
    | none, some (o, rest) => (.operator o, rest)
    | none, none => (.operator [c], rest)

def readTokens : Nat → Text → List Token
  | 0, _ => []
  | fuel + 1, t =>
      match t.dropWhile fun c => c = ' ' || c = '\t' || c = '\n' with
      | [] => []
      | c :: rest =>
          let (token, rest) := readToken c rest
          token :: readTokens fuel rest

def binaryOperators : List (Text × Operator × Nat) := [
  ("*", .times, 0), ("/", .divide, 0), ("%", .remainder, 0), ("+", .plus, 1), ("-", .minus, 1),
  ("<<", .shiftLeft, 2), (">>", .shiftRight, 2), ("<", .less, 3), ("<=", .lessOrEqual, 3),
  (">", .greater, 3), (">=", .greaterOrEqual, 3), ("==", .equal, 4), ("!=", .unequal, 4),
  ("&", .bitAnd, 5), ("^", .bitXor, 6), ("|", .bitOr, 7)]

def loosest : Nat := 8

def binaryOperator? (o : Text) : Option (Operator × Nat) :=
  (binaryOperators.find? fun e => e.1 = o).map (·.2)

def assignmentOperator? (o : Text) : Option (Option Operator) :=
  if o = ['='] then some none
  else if o = "==".toList || o = "<=".toList || o = ">=".toList || o = "!=".toList then none
  else
    match o.reverse with
    | '=' :: o => (binaryOperator? o.reverse).map fun e => some e.1
    | _ => none

/-- An expression, and the tokens behind it; behind a fault there are none. -/
abbrev Reading := Expression × List Token

mutual

def readAssignment (fuel : Nat) (tokens : List Token) : Reading :=
  match fuel with
  | 0 => (.absent .operand, [])
  | fuel + 1 =>
      match tokens with
      | .name name :: .operator o :: rest =>
          match assignmentOperator? o with
          | some o =>
              let (e, rest) := readAssignment fuel rest
              (.assign name o e, rest)
          | none => readChoice fuel tokens
      | tokens => readChoice fuel tokens

def readChoice (fuel : Nat) (tokens : List Token) : Reading :=
  match fuel with
  | 0 => (.absent .operand, [])
  | fuel + 1 =>
      match readEither fuel tokens with
      | (condition, .operator ['?'] :: rest) =>
          match readAssignment fuel rest with
          | (yes, .operator [':'] :: rest) =>
              let (no, rest) := readChoice fuel rest
              (.choice condition yes no, rest)
          | (yes, _) => (.choice condition yes (.absent .colon), [])
      | reading => reading

def readEither (fuel : Nat) (tokens : List Token) : Reading :=
  match fuel with
  | 0 => (.absent .operand, [])
  | fuel + 1 =>
      match readBoth fuel tokens with
      | (a, .operator ['|', '|'] :: rest) =>
          let (b, rest) := readEither fuel rest
          (.either a b, rest)
      | reading => reading

def readBoth (fuel : Nat) (tokens : List Token) : Reading :=
  match fuel with
  | 0 => (.absent .operand, [])
  | fuel + 1 =>
      match readBinary fuel loosest tokens with
      | (a, .operator ['&', '&'] :: rest) =>
          let (b, rest) := readBoth fuel rest
          (.both a b, rest)
      | reading => reading

def readBinary (fuel : Nat) (limit : Nat) (tokens : List Token) : Reading :=
  match fuel with
  | 0 => (.absent .operand, [])
  | fuel + 1 =>
      let (a, rest) := readOperand fuel tokens
      continueBinary fuel limit a rest

def continueBinary (fuel : Nat) (limit : Nat) (a : Expression) (tokens : List Token) : Reading :=
  match fuel with
  | 0 => (.absent .operand, [])
  | fuel + 1 =>
      match tokens with
      | .operator o :: rest =>
          match binaryOperator? o with
          | some (o, level) =>
              if level < limit then
                let (b, rest) := readBinary fuel level rest
                continueBinary fuel limit (.binary o a b) rest
              else (a, tokens)
          | none => (a, tokens)
      | tokens => (a, tokens)

def readOperand (fuel : Nat) (tokens : List Token) : Reading :=
  match fuel with
  | 0 => (.absent .operand, [])
  | fuel + 1 =>
      match tokens with
      | .number n :: rest => (.number n, rest)
      | .name name :: rest => (.variable name, rest)
      | .operator ['+'] :: rest => readOperand fuel rest
      | .operator ['-'] :: rest => (readOperand fuel rest).map .negated id
      | .operator ['~'] :: rest => (readOperand fuel rest).map .complement id
      | .operator ['!'] :: rest => (readOperand fuel rest).map .inverted id
      | .operator ['('] :: rest =>
          match readAssignment fuel rest with
          | (e, .operator [')'] :: rest) => (e, rest)
          | (e, _) => (.broken e .parenthesis, [])
      | _ => (.absent .operand, [])

end

def Expression.read (t : Text) : Expression :=
  let tokens := readTokens (t.length + 1) t
  match readAssignment (8 * tokens.length + 8) tokens with
  | (e, []) => e
  | (e, _) => .broken e .ending

def ofBool (b : Bool) : Int64 := if b then 1 else 0

def Operator.apply? (a b : Int64) : Operator → Option Int64
  | .times => some (a * b)
  | .divide => if b = 0 then none else some (a / b)
  | .remainder => if b = 0 then none else some (a % b)
  | .plus => some (a + b)
  | .minus => some (a - b)
  | .shiftLeft => some (a <<< b)
  | .shiftRight => some (a >>> b)
  | .less => some (ofBool (a < b))
  | .lessOrEqual => some (ofBool (a ≤ b))
  | .greater => some (ofBool (b < a))
  | .greaterOrEqual => some (ofBool (b ≤ a))
  | .equal => some (ofBool (a = b))
  | .unequal => some (ofBool (a ≠ b))
  | .bitAnd => some (a &&& b)
  | .bitXor => some (a ^^^ b)
  | .bitOr => some (a ||| b)

def complaint (message whole : Text) : Text :=
  "arithmetic expression: " ++ message ++ ": \"" ++ whole ++ "\""

def valueOfVariable (name : Text) : Run Int64 := do
  let t := ((← get).setting? name).getD []
  match integer? none t with
  | some n => return Int64.ofInt n
  | none => abort ("Illegal number: " ++ t)

def applyOperator (whole : Text) (o : Operator) (a b : Int64) : Run Int64 :=
  match o.apply? a b with
  | some n => return n
  | none => abort (complaint "division by zero" whole)

/-- The value of an expression; `whole` is the text for complaints. In what a choice skips nothing
happens, but faults are found there too. -/
def Expression.value (whole : Text) (isSkipped : Bool) : Expression → Run Int64
  | .number n => return n
  | .variable name => if isSkipped then return 0 else valueOfVariable name
  | .negated e => do return -(← e.value whole isSkipped)
  | .complement e => do return ~~~(← e.value whole isSkipped)
  | .inverted e => do return ofBool ((← e.value whole isSkipped) = 0)
  | .binary o a b => do
      let n ← a.value whole isSkipped
      let m ← b.value whole isSkipped
      if isSkipped then return 0 else applyOperator whole o n m
  | .both a b => do
      let n ← a.value whole isSkipped
      let m ← b.value whole (isSkipped || n = 0)
      return ofBool (n ≠ 0 ∧ m ≠ 0)
  | .either a b => do
      let n ← a.value whole isSkipped
      let m ← b.value whole (isSkipped || n ≠ 0)
      return ofBool (n ≠ 0 ∨ m ≠ 0)
  | .choice condition yes no => do
      let c ← condition.value whole isSkipped
      let n ← yes.value whole (isSkipped || c = 0)
      let m ← no.value whole (isSkipped || c ≠ 0)
      return if c ≠ 0 then n else m
  | .assign name o e => do
      let n ← e.value whole isSkipped
      if isSkipped then return n
      else
        let n ← match o with
          | some o => applyOperator whole o (← valueOfVariable name) n
          | none => pure n
        Shell.assign name (Text.ofInt n.toInt)
        return n
  | .absent fault => abort (complaint fault.message whole)
  | .broken front fault => do
      let _ ← front.value whole isSkipped
      abort (complaint fault.message whole)

def evaluate (t : Text) : Run Text := do
  return Text.ofInt (← (Expression.read t).value t false).toInt

end ScriptWeave.Shell.Arithmetic
