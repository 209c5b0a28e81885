import ScriptWeave.Text.Basic

namespace ScriptWeave.CommandWords

inductive Fault where
  | openQuote
  | openEscape
  deriving DecidableEq, Repr

def Fault.message : Fault → Text
  | .openQuote => "No closing quotation"
  | .openEscape => "No escaped character"

inductive Mode where
  | plain
  | single
  | double
  | escape
  /-- Behind a backslash in double quotes, where only a quote or a backslash can be escaped. -/
  | doubleEscape
  deriving DecidableEq, Repr

def isBreak (c : Char) : Bool := c == ' ' || c == '\t' || c == '\r' || c == '\n'

def splitFrom (mode : Mode) (word : Option Text) : Text → Except Fault (List Text)
  | [] =>
      match mode with
      | .plain => .ok (word.toList.map List.reverse)
      | .single | .double => .error .openQuote
      | .escape | .doubleEscape => .error .openEscape
  | c :: rest =>
      let grown := some (c :: word.getD [])
      match mode with
      | .plain =>
          if isBreak c then
            (splitFrom .plain none rest).map (word.toList.map List.reverse ++ ·)
          else if c = '\'' then splitFrom .single (some (word.getD [])) rest
          else if c = '"' then splitFrom .double (some (word.getD [])) rest
          else if c = '\\' then splitFrom .escape word rest
          else splitFrom .plain grown rest
      | .single =>
          if c = '\'' then splitFrom .plain word rest else splitFrom .single grown rest
      | .double =>
          if c = '"' then splitFrom .plain word rest
          else if c = '\\' then splitFrom .doubleEscape word rest
          else splitFrom .double grown rest
      | .escape => splitFrom .plain grown rest
      | .doubleEscape =>
          if c = '"' ∨ c = '\\' then splitFrom .double grown rest
          else splitFrom .double (some (c :: '\\' :: word.getD [])) rest

def split (t : Text) : Except Fault (List Text) := splitFrom .plain none t

end ScriptWeave.CommandWords
