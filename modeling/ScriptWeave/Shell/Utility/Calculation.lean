import ScriptWeave.Shell.Arithmetic
import ScriptWeave.Shell.Regular
import ScriptWeave.Shell.Utility.Basic

namespace ScriptWeave.Shell.Utility

namespace Calculation

inductive Fault where
  | incomplete (last : Text)
  | unexpected (t : Text)
  | unclosed (last : Text)
  | notNumber
  | zeroDivisor
  | expression (fault : Regular.Fault)

def Fault.message : Fault → Text
  | .incomplete last => "syntax error: missing argument after '" ++ last ++ "'"
  | .unexpected t => "syntax error: unexpected argument '" ++ t ++ "'"
  | .unclosed last => "syntax error: expecting ')' after '" ++ last ++ "'"
  | .notNumber => "non-integer argument"
  | .zeroDivisor => "division by zero"
  | .expression fault => fault.message

/-- The value of the part that was read, the last word of it, and the words behind it. -/
abbrev Reading := Except Fault (Text × Text × List Text)

def integer? (t : Text) : Option Int :=
  match t with
  | '-' :: digits => (number? digits).map fun n => -(n : Int)
  | digits => (number? digits).map fun n => (n : Int)

def isFalse (t : Text) : Bool := t = [] || integer? t = some 0

def ofBool (b : Bool) : Text := if b then ['1'] else ['0']

def compareBy (ofNumbers : Int → Int → Bool) (ofTexts : Text → Text → Bool) (a b : Text) : Text :=
  match integer? a, integer? b with
  | some m, some n => ofBool (ofNumbers m n)
  | _, _ => ofBool (ofTexts a b)

def ofNumbers (compute : Int → Int → Except Fault Int) (a b : Text) : Except Fault Text :=
  match integer? a, integer? b with
  | some m, some n => (compute m n).map Text.ofInt
  | _, _ => .error .notNumber

def fitAtStart (t expression : Text) : Except Fault Text := do
  let r ← (Regular.read false expression).mapError .expression
  let s : Spot := { rest := t }
  match r.fit? false s, decide (0 < r.groupCount) with
  | some e, true => return ((e.groups.find? (·.1 = 1)).map (·.2)).getD []
  | some e, false => return Text.ofNat (s.upTo e).length
  | none, true => return []
  | none, false => return ['0']

def part (t : Text) : Option Int → Option Int → Text
  | some start, some count =>
      if start ≤ 0 ∨ count ≤ 0 then [] else (t.drop (start.toNat - 1)).take count.toNat
  | _, _ => []

def operators : List (Text × Nat × (Text → Text → Except Fault Text)) := [
  ("|", 0, fun a b => .ok (if !isFalse a then a else if !isFalse b then b else ['0'])),
  ("&", 1, fun a b => .ok (if !isFalse a && !isFalse b then a else ['0'])),
  ("=", 2, fun a b => .ok (compareBy (· = ·) (· = ·) a b)),
  ("==", 2, fun a b => .ok (compareBy (· = ·) (· = ·) a b)),
  ("!=", 2, fun a b => .ok (compareBy (· ≠ ·) (· ≠ ·) a b)),
  ("<", 2, fun a b => .ok (compareBy (· < ·) (fun a b => !Text.isOrdered b a) a b)),
  ("<=", 2, fun a b => .ok (compareBy (· ≤ ·) Text.isOrdered a b)),
  (">", 2, fun a b => .ok (compareBy (· > ·) (fun a b => !Text.isOrdered a b) a b)),
  (">=", 2, fun a b => .ok (compareBy (· ≥ ·) (fun a b => Text.isOrdered b a) a b)),
  ("+", 3, ofNumbers fun m n => .ok (m + n)),
  ("-", 3, ofNumbers fun m n => .ok (m - n)),
  ("*", 4, ofNumbers fun m n => .ok (m * n)),
  ("/", 4, ofNumbers fun m n => if n = 0 then .error .zeroDivisor else .ok (m.tdiv n)),
  ("%", 4, ofNumbers fun m n => if n = 0 then .error .zeroDivisor else .ok (m.tmod n)),
  (":", 5, fitAtStart)]

def tightest : Nat := 6

mutual

def readLevel (fuel level : Nat) (last : Text) (words : List Text) : Reading :=
  match fuel with
  | 0 => .error (.incomplete last)
  | fuel + 1 =>
      if level = tightest then readOperand fuel last words
      else do
        let (a, last, rest) ← readLevel fuel (level + 1) last words
        readMore fuel level a last rest

def readMore (fuel level : Nat) (a last : Text) (words : List Text) : Reading :=
  match fuel, words with
  | 0, _ => .error (.incomplete last)
  | _ + 1, [] => .ok (a, last, [])
  | fuel + 1, o :: rest =>
      match operators.find? fun e => e.1 = o && e.2.1 = level with
      | some (_, _, apply) => do
          let (b, last, rest) ← readLevel fuel (level + 1) o rest
          readMore fuel level (← apply a b) last rest
      | none => .ok (a, last, words)

def readOperand (fuel : Nat) (last : Text) (words : List Text) : Reading :=
  match fuel, words with
  | 0, _ => .error (.incomplete last)
  | _ + 1, [] => .error (.incomplete last)
  | fuel + 1, word :: rest =>
      if word = ['('] then do
        match ← readLevel fuel 0 word rest with
        | (a, _, [')'] :: rest) => return (a, [')'], rest)
        | (_, last, _) => .error (.unclosed last)
      else if word = [')'] then .error (.unexpected word)
      else if word = "length".toList ∧ rest ≠ [] then do
        let (t, last, rest) ← readOperand fuel word rest
        return (Text.ofNat t.length, last, rest)
      else if word = "substr".toList ∧ rest ≠ [] then do
        let (t, last, rest) ← readOperand fuel word rest
        let (start, last, rest) ← readOperand fuel last rest
        let (count, last, rest) ← readOperand fuel last rest
        return (part t (integer? start) (integer? count), last, rest)
      else if word = "index".toList ∧ rest ≠ [] then do
        let (t, last, rest) ← readOperand fuel word rest
        let (set, last, rest) ← readOperand fuel last rest
        let place := t.findIdx (set.contains ·)
        return (if place < t.length then Text.ofNat (place + 1) else ['0'], last, rest)
      else if word = "match".toList ∧ rest ≠ [] then do
        let (t, last, rest) ← readOperand fuel word rest
        let (expression, last, rest) ← readOperand fuel last rest
        return (← fitAtStart t expression, last, rest)
      else if word = ['+'] then
        match rest with
        | t :: rest => .ok (t, t, rest)
        | [] => .error (.incomplete word)
      else .ok (word, word, rest)

end
def evaluate (words : List Text) : Except Fault Text := do
  match ← readLevel (16 * words.length + 16) 0 [] words with
  | (t, _, []) => return t
  | (_, _, word :: _) => .error (.unexpected word)

end Calculation

def expr (arguments : List Text) : Run Nat := do
  let words := if arguments.head? = some "--".toList then arguments.drop 1 else arguments
  if words = [] then
    let _ ← missingOperand "expr"
    return 2
  else
    match Calculation.evaluate words with
    | .ok t => do
        let _ ← emit (t ++ ['\n'])
        return if Calculation.isFalse t then 1 else 0
    | .error fault => do
        let _ ← fail "expr" fault.message
        return 2

structure Progression where
  first : Int := 1
  step : Int := 1
  last : Int
  deriving DecidableEq, Repr

namespace Progression

def toList (p : Progression) : List Int :=
  let count := (Int.fdiv (p.last - p.first) p.step + 1).toNat
  (List.range count).map fun i : Nat => p.first + p.step * (i : Int)

def ofNumbers? : List Int → Option Progression
  | [last] => some { last }
  | [first, last] => some { first, last }
  | [first, step, last] => some { first, step, last }
  | _ => none

end Progression

def paddedNumber (width : Nat) (n : Int) : Text :=
  let digits := Text.ofNat n.natAbs
  let sign : Text := if n < 0 then ['-'] else []
  sign ++ List.replicate (width - sign.length - digits.length) '0' ++ digits

def markNegative : List Text → List Text
  | ('-' :: c :: t) :: rest =>
      if c.isDigit then ['-', '-'] :: ('-' :: c :: t) :: rest
      else if t = [] ∧ c = 's' then
        ['-', 's'] :: match rest with
          | value :: rest => value :: markNegative rest
          | [] => []
      else ('-' :: c :: t) :: if t = [] ∧ c = '-' then rest else markNegative rest
  | t :: rest => ['-', '-'] :: t :: rest
  | [] => []

def progressionFault (operands : List Text) (step : Int) : Option Text :=
  match operands.find? fun t => (Arithmetic.integer? (some 10) t).isNone, operands.drop 3 with
  | _, extra :: _ => some ("extra operand " ++ quotedName extra)
  | some t, [] => some ("invalid floating point argument: " ++ quotedName t)
  | none, [] =>
      if step = 0 then some ("invalid Zero increment value: " ++ quotedName (operands.getD 1 []))
      else none

def seq (arguments : List Text) : Run Nat :=
  let table : OptionTable := {
    flags := ['w']
    valued := ['s']
    names := [("equal-width", 'w'), ("separator", 's')] }
  withOptions "seq" table (fun o => do
    let numbers := o.operands.filterMap (Arithmetic.integer? (some 10))
    match Progression.ofNumbers? (numbers.take 3) with
    | none =>
        match progressionFault o.operands 1 with
        | some message => misuse "seq" message
        | none => missingOperand "seq"
    | some p =>
        match progressionFault o.operands p.step with
        | some message => misuse "seq" message
        | none =>
            let widest := ((p.first :: p.toList).map fun n => (Text.ofInt n).length).foldl max 0
            let width := if o.has 'w' then widest else 0
            match p.toList.map (paddedNumber width) with
            | [] => return 0
            | shown => emit (Text.joinWith ((o.value? 's').getD ['\n']) shown ++ ['\n']))
    (markNegative arguments)

end ScriptWeave.Shell.Utility
