import ScriptWeave.Text.CharClass

/-!
Lines of a source text. A carriage return, a line feed, and the two in this order each end a
line; a break at the very end starts no further line. Every reader and writer of source lines
goes through this module, because the line numbers of a merged document are only right if all
parts agree on what a line is.
-/

namespace ScriptWeave.Text

def breakLines : Text → List Text
  | [] => [[]]
  | '\r' :: '\n' :: rest => [] :: breakLines rest
  | c :: rest =>
      if c = '\r' ∨ c = '\n' then [] :: breakLines rest
      else
        match breakLines rest with
        | [] => [[c]]
        | line :: more => (c :: line) :: more

def dropLastEmpty : List Text → List Text
  | [] => []
  | [line] => if line = [] then [] else [line]
  | line :: line' :: more => line :: dropLastEmpty (line' :: more)

def splitLines (t : Text) : List Text := dropLastEmpty (breakLines t)

def countLineBreaks : Text → Nat
  | [] => 0
  | '\r' :: '\n' :: rest => countLineBreaks rest + 1
  | c :: rest => if c = '\r' ∨ c = '\n' then countLineBreaks rest + 1 else countLineBreaks rest

def unlines (lines : List Text) : Text := lines.flatMap (· ++ ['\n'])

def normalizeBreaks : Text → Text
  | [] => []
  | '\r' :: '\n' :: rest => '\n' :: normalizeBreaks rest
  | c :: rest => (if c = '\r' then '\n' else c) :: normalizeBreaks rest

theorem breakLines_ne_nil (t : Text) : breakLines t ≠ [] := by
  fun_cases breakLines t <;> simp_all

theorem length_breakLines (t : Text) : (breakLines t).length = countLineBreaks t + 1 := by
  fun_induction breakLines t with
  | case1 => rfl
  | case2 rest ih => simp [countLineBreaks, ih]
  | case3 c rest hnot h ih => simp [countLineBreaks, h, ih]
  | case4 c rest hnot h hnil ih => exact absurd hnil (breakLines_ne_nil rest)
  | case5 c rest hnot h line more hcons ih => simp_all [countLineBreaks]

/-- Characters that end a line of program output: besides the breaks of a source line the
vertical tab, the form feed, three information separators, and three breaks of Unicode. -/
def isOutputBreak (c : Char) : Bool :=
  c == '\n' || c == '\r' || c == '\x0b' || c == '\x0c' || c == '\x1c' || c == '\x1d' ||
    c == '\x1e' || c == '\x85' || c == '\u2028' || c == '\u2029'

def breakOutput : Text → List Text
  | [] => [[]]
  | '\r' :: '\n' :: rest => [] :: breakOutput rest
  | c :: rest =>
      if isOutputBreak c then [] :: breakOutput rest
      else
        match breakOutput rest with
        | [] => [[c]]
        | line :: more => (c :: line) :: more

def outputLines (t : Text) : List Text := dropLastEmpty (breakOutput t)

/-- The place of the next character behind a text: lines and columns start at 1, and a column
counts the characters since the last line feed. A carriage return alone starts no line here. -/
structure Position where
  line : Nat
  column : Nat
  deriving DecidableEq, Repr

def Position.advance (p : Position) (c : Char) : Position :=
  if c = '\n' then ⟨p.line + 1, 1⟩ else ⟨p.line, p.column + 1⟩

def positionBehind (t : Text) : Position := t.foldl Position.advance ⟨1, 1⟩

end ScriptWeave.Text
