import ScriptWeave.Text.CharClass

namespace ScriptWeave

inductive Json where
  | null
  | bool (b : Bool)
  | integer (n : Int)
  /-- `mantissa * 10 ^ exponent`, for a number written with a fraction or an exponent. -/
  | decimal (mantissa exponent : Int)
  | notFinite
  | text (t : Text)
  | array (items : List Json)
  | object (fields : List (Text × Json))
  deriving Repr

namespace Json

/-- Whether the nearest binary floating-point number of 64 bits is zero: the least positive one is
2 ^ (-1074), and its half still goes to zero. -/
def roundsToZero (mantissa exponent : Int) : Bool :=
  mantissa = 0 ||
    (exponent < 0 &&
      (1100 + (Text.ofInt mantissa).length < exponent.natAbs
        || mantissa.natAbs * Nat.pow 2 1075 ≤ Nat.pow 10 exponent.natAbs))

def equalsZero : Json → Bool
  | .bool b => !b
  | .integer n => n = 0
  | .decimal mantissa exponent => roundsToZero mantissa exponent
  | _ => false

def field? (fields : List (Text × Json)) (name : Text) : Option Json :=
  (fields.reverse.find? fun f => f.1 = name).map (·.2)

def hexUnit (n : Nat) : Text :=
  [Nat.digitChar (n / 4096 % 16), Nat.digitChar (n / 256 % 16), Nat.digitChar (n / 16 % 16),
    Nat.digitChar (n % 16)]

/-- A character inside quotes. What is not printable ASCII is written by its 16-bit units. -/
def writeChar (c : Char) : Text :=
  if c = '"' then "\\\""
  else if c = '\\' then "\\\\"
  else if c = '\n' then "\\n"
  else if c = '\r' then "\\r"
  else if c = '\t' then "\\t"
  else if c = '\x08' then "\\b"
  else if c = '\x0c' then "\\f"
  else if 0x20 ≤ c.toNat ∧ c.toNat < 0x7F then [c]
  else if c.toNat < 0x10000 then "\\u" ++ hexUnit c.toNat
  else
    let n := c.toNat - 0x10000
    "\\u" ++ hexUnit (0xD800 + n / 0x400) ++ "\\u" ++ hexUnit (0xDC00 + n % 0x400)

def writeText (t : Text) : Text := "\"" ++ t.flatMap writeChar ++ "\""

mutual

def write : Json → Text
  | .null => "null"
  | .bool b => if b then "true" else "false"
  | .integer n => Text.ofInt n
  | .decimal mantissa exponent => Text.ofInt mantissa ++ "e" ++ Text.ofInt exponent
  | .notFinite => "NaN"
  | .text t => writeText t
  | .array items => "[" ++ writeItems items ++ "]"
  | .object fields => "\x7b" ++ writeFields fields ++ "\x7d"

def writeItems : List Json → Text
  | [] => []
  | [j] => write j
  | j :: j' :: js => write j ++ ", " ++ writeItems (j' :: js)

def writeFields : List (Text × Json) → Text
  | [] => []
  | [(name, j)] => writeText name ++ ": " ++ write j
  | (name, j) :: f :: fs => writeText name ++ ": " ++ write j ++ ", " ++ writeFields (f :: fs)

end

end Json

end ScriptWeave
