import ScriptWeave.Text.CharClass
import ScriptWeave.Text.HiddenTable

namespace ScriptWeave.Text

def isHidden (c : Char) : Bool := inRanges hiddenRanges c.toNat

def hexDigits : Nat → Nat → Text
  | 0, _ => []
  | count + 1, n => hexDigits count (n / 16) ++ [Nat.digitChar (n % 16)]

def numbered (c : Char) : Text :=
  if c.toNat < 0x100 then "\\x" ++ hexDigits 2 c.toNat
  else if c.toNat < 0x10000 then "\\u" ++ hexDigits 4 c.toNat
  else "\\U" ++ hexDigits 8 c.toNat

def quoteChar (mark c : Char) : Text :=
  if c = mark ∨ c = '\\' then ['\\', c]
  else if c = '\n' then "\\n"
  else if c = '\r' then "\\r"
  else if c = '\t' then "\\t"
  else if isHidden c then numbered c
  else [c]

def quoted (t : Text) : Text :=
  let mark := if '\'' ∈ t ∧ '"' ∉ t then '"' else '\''
  [mark] ++ t.flatMap (quoteChar mark) ++ [mark]

end ScriptWeave.Text
