import ScriptWeave.Text.CharClass

namespace ScriptWeave.Text

def digitLimit : Nat := 4300

/-- A number that is refused for its length: a text of that many digits, or a value. -/
inductive NumberTooLong where
  | text (digits : Nat)
  | value
  deriving DecidableEq, Repr

def NumberTooLong.message (f : NumberTooLong) : Text :=
  let found : Text := match f with
    | .text digits => ": value has " ++ ofNat digits ++ " digits"
    | .value => []
  "Exceeds the limit (" ++ ofNat digitLimit ++ " digits) for integer string conversion" ++ found
    ++ "; use sys.set_int_max_str_digits() to increase the limit"

/-- The digits at the start of a text and the text behind them; there is at least one. -/
def readDigits? (t : Text) : Option (Text × Text) :=
  match t.takeWhile isDecimal with
  | [] => none
  | digits => some (digits, t.dropWhile isDecimal)

def numberOfDigits (digits : Text) : Except NumberTooLong Nat :=
  if digits.length ≤ digitLimit then .ok (decimalValue digits) else .error (.text digits.length)

def isWritable (n : Int) : Bool := n.natAbs < Nat.pow 10 digitLimit

end ScriptWeave.Text
