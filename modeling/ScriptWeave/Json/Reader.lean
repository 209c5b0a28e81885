import ScriptWeave.Json
import ScriptWeave.Text.Lines
import ScriptWeave.Text.Number

namespace ScriptWeave.Json

open Text

inductive Expected where
  | value
  | fieldName
  | colon
  | comma
  | closingQuote
  | printable
  | escape
  | unitEscape
  | endOfText
  | noByteOrderMark
  deriving DecidableEq, Repr

def Expected.message : Expected → Text
  | .value => "Expecting value"
  | .fieldName => "Expecting property name enclosed in double quotes"
  | .colon => "Expecting ':' delimiter"
  | .comma => "Expecting ',' delimiter"
  | .closingQuote => "Unterminated string starting at"
  | .printable => "Invalid control character at"
  | .escape => "Invalid \\escape"
  | .unitEscape => "Invalid \\uXXXX escape"
  | .endOfText => "Extra data"
  | .noByteOrderMark => "Unexpected UTF-8 BOM (decode using utf-8-sig)"

inductive ReadFault where
  | expected (what : Expected) (here : Text)
  | number (fault : NumberTooLong)
  deriving DecidableEq, Repr

def ReadFault.message (whole : Text) : ReadFault → Text
  | .number fault => fault.message
  | .expected what here =>
      let offset := whole.length - here.length
      let position := positionBehind (whole.take offset)
      what.message ++ ": line " ++ ofNat position.line ++ " column " ++ ofNat position.column
        ++ " (char " ++ ofNat offset ++ ")"

def isSpace (c : Char) : Bool := c == ' ' || c == '\t' || c == '\n' || c == '\r'

def skipSpace (t : Text) : Text := t.dropWhile isSpace

def hexValue? (c : Char) : Option Nat :=
  if c.isDigit then some (c.toNat - '0'.toNat)
  else if 'a' ≤ c ∧ c ≤ 'f' then some (c.toNat - 'a'.toNat + 10)
  else if 'A' ≤ c ∧ c ≤ 'F' then some (c.toNat - 'A'.toNat + 10)
  else none

def readUnit? : Text → Option (Nat × Text)
  | a :: b :: c :: d :: rest => do
      let a ← hexValue? a
      let b ← hexValue? b
      let c ← hexValue? c
      let d ← hexValue? d
      return (((a * 16 + b) * 16 + c) * 16 + d, rest)
  | _ => none

def escaped? : Char → Option Char
  | '"' => some '"'
  | '\\' => some '\\'
  | '/' => some '/'
  | 'b' => some '\x08'
  | 'f' => some '\x0c'
  | 'n' => some '\n'
  | 'r' => some '\r'
  | 't' => some '\t'
  | _ => none

/-- A unit that stands alone. Half of a pair denotes no character, and an operating system takes it
in no name, as it does not take a null character; so it is read as one. -/
def charOfUnit (n : Nat) : Char :=
  if 0xD800 ≤ n ∧ n < 0xE000 then '\x00' else Char.ofNat n

/-- The characters up to the closing quote and the text behind it. `start` begins with the opening
quote. A unit must be followed by at least one more character. -/
def readChars (start : Text) : Nat → Text → Except ReadFault (Text × Text)
  | 0, _ => .error (.expected .closingQuote start)
  | fuel + 1, t =>
      let behind (c : Char) (rest : Text) : Except ReadFault (Text × Text) :=
        (readChars start fuel rest).map fun (cs, rest) => (c :: cs, rest)
      match t with
      | [] => .error (.expected .closingQuote start)
      | '"' :: rest => .ok ([], rest)
      | '\\' :: 'u' :: rest =>
          match readUnit? rest with
          | none | some (_, []) => .error (.expected .unitEscape ('u' :: rest))
          | some (high, '\\' :: 'u' :: low) =>
              if 0xD800 ≤ high ∧ high < 0xDC00 ∧ 4 < low.length then
                match readUnit? low with
                | none => .error (.expected .unitEscape ('u' :: low))
                | some (second, rest') =>
                    if 0xDC00 ≤ second ∧ second < 0xE000 then
                      behind (Char.ofNat (0x10000 + (high - 0xD800) * 0x400 + (second - 0xDC00)))
                        rest'
                    else behind (charOfUnit high) ('\\' :: 'u' :: low)
              else behind (charOfUnit high) ('\\' :: 'u' :: low)
          | some (unit, rest) => behind (charOfUnit unit) rest
      | '\\' :: [] => .error (.expected .closingQuote start)
      | '\\' :: c :: rest =>
          match escaped? c with
          | none => .error (.expected .escape ('\\' :: c :: rest))
          | some c => behind c rest
      | c :: rest =>
          if c.toNat < 0x20 then .error (.expected .printable (c :: rest)) else behind c rest

def readText (start rest : Text) : Except ReadFault (Text × Text) :=
  readChars start (rest.length + 1) rest

/-- The fraction's digits and the text behind them; no digits if there is no fraction. -/
def readFraction (t : Text) : Text × Text :=
  match t with
  | '.' :: rest =>
      match rest.takeWhile Char.isDigit with
      | [] => ([], t)
      | digits => (digits, rest.dropWhile Char.isDigit)
  | _ => ([], t)

def readExponent? (t : Text) : Option (Int × Text) :=
  let digits (t : Text) : Option (Int × Text) :=
    match t.takeWhile Char.isDigit with
    | [] => none
    | ds => some (decimalValue ds, t.dropWhile Char.isDigit)
  match t with
  | c :: rest =>
      if c = 'e' ∨ c = 'E' then
        match rest with
        | '+' :: rest => digits rest
        | '-' :: rest => (digits rest).map fun (n, rest) => (-n, rest)
        | _ => digits rest
      else none
  | [] => none

def negateIf (negative : Bool) (n : Int) : Int := if negative then -n else n

def readNumber (start : Text) (negative : Bool) (t : Text) : Except ReadFault (Json × Text) :=
  let whole := match t with
    | '0' :: _ => ['0']
    | _ => t.takeWhile Char.isDigit
  match whole with
  | [] => .error (.expected .value start)
  | whole =>
      let (fraction, rest) := readFraction (t.drop whole.length)
      match fraction, readExponent? rest with
      | [], none =>
          match numberOfDigits whole with
          | .error fault => .error (.number fault)
          | .ok n => .ok (.integer (negateIf negative n), rest)
      | fraction, exponent =>
          let (exponent, rest) := exponent.getD (0, rest)
          .ok (.decimal (negateIf negative (decimalValue (whole ++ fraction)))
            (exponent - fraction.length), rest)

def readWord? (t : Text) : Option (Json × Text) :=
  let word (w : Text) (j : Json) : Option (Json × Text) :=
    (afterPrefix? w t).map fun rest => (j, rest)
  word "null" .null <|> word "true" (.bool true) <|> word "false" (.bool false)
    <|> word "NaN" .notFinite <|> word "Infinity" .notFinite <|> word "-Infinity" .notFinite

mutual

def readValue : Nat → Text → Except ReadFault (Json × Text)
  | 0, t => .error (.expected .value t)
  | fuel + 1, t =>
      match t with
      | '"' :: rest =>
          match readText t rest with
          | .error fault => .error fault
          | .ok (chars, rest) => .ok (.text chars, rest)
      | '[' :: rest =>
          match skipSpace rest with
          | ']' :: rest => .ok (.array [], rest)
          | rest =>
              match readItems fuel rest with
              | .error fault => .error fault
              | .ok (items, rest) => .ok (.array items, rest)
      | '\x7b' :: rest =>
          match skipSpace rest with
          | '\x7d' :: rest => .ok (.object [], rest)
          | rest =>
              match readFields fuel rest with
              | .error fault => .error fault
              | .ok (fields, rest) => .ok (.object fields, rest)
      | _ =>
          match readWord? t with
          | some found => .ok found
          | none =>
              match t with
              | '-' :: rest => readNumber t true rest
              | _ => readNumber t false t

def readItems : Nat → Text → Except ReadFault (List Json × Text)
  | 0, t => .error (.expected .value t)
  | fuel + 1, t =>
      match readValue fuel t with
      | .error fault => .error fault
      | .ok (item, rest) =>
          match skipSpace rest with
          | ']' :: rest => .ok ([item], rest)
          | ',' :: rest =>
              match readItems fuel (skipSpace rest) with
              | .error fault => .error fault
              | .ok (items, rest) => .ok (item :: items, rest)
          | here => .error (.expected .comma here)

def readFields : Nat → Text → Except ReadFault (List (Text × Json) × Text)
  | 0, t => .error (.expected .fieldName t)
  | fuel + 1, t =>
      match t with
      | '"' :: rest =>
          match readText t rest with
          | .error fault => .error fault
          | .ok (name, rest) =>
              match skipSpace rest with
              | ':' :: rest =>
                  match readValue fuel (skipSpace rest) with
                  | .error fault => .error fault
                  | .ok (value, rest) =>
                      match skipSpace rest with
                      | '\x7d' :: rest => .ok ([(name, value)], rest)
                      | ',' :: rest =>
                          match readFields fuel (skipSpace rest) with
                          | .error fault => .error fault
                          | .ok (fields, rest) => .ok ((name, value) :: fields, rest)
                      | here => .error (.expected .comma here)
              | here => .error (.expected .colon here)
      | here => .error (.expected .fieldName here)

end

/-- The value that a text holds, blanks around it allowed. Every call takes at least one character
or is followed by one that does, so twice the length is enough fuel. -/
def read (t : Text) : Except ReadFault Json :=
  match t with
  | '\ufeff' :: _ => .error (.expected .noByteOrderMark t)
  | _ =>
      match readValue (2 * t.length + 2) (skipSpace t) with
      | .error fault => .error fault
      | .ok (value, rest) =>
          match skipSpace rest with
          | [] => .ok value
          | here => .error (.expected .endOfText here)

end ScriptWeave.Json
