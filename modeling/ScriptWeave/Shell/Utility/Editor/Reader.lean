import ScriptWeave.Shell.Regular
import ScriptWeave.Shell.Utility.Basic

namespace ScriptWeave.Shell.Utility.Editor

/-- What a line has to fit; without an expression, that of the one that was used last. -/
structure Wanted where
  expression : Option Regular
  caseless : Bool := false

inductive Address where
  | line (n : Nat)
  | last
  | step (first distance : Nat)
  | fits (wanted : Wanted)
  /-- As an end: so many lines behind the first one, or at the next multiple of a number. -/
  | behind (count : Nat)
  | multiple (n : Nat)

/-- The lines that a command is for: all, those of one address, or those from one to another. -/
structure Scope where
  first : Option Address := none
  last : Option Address := none
  isInverted : Bool := false

inductive LetterCase where
  | upper
  | lower
  | asIs
  deriving DecidableEq, Repr

inductive Replacement where
  | char (c : Char)
  | group (n : Nat)
  | letters (form : LetterCase) (isOnce : Bool)

structure Substitution where
  wanted : Wanted
  replacement : List Replacement
  first : Nat := 1
  isGlobal : Bool := false
  prints : Bool := false

inductive Edit where
  | substitute (s : Substitution)
  | replaceChars (pairs : List (Char × Char))
  | delete
  | deleteFirst
  | print
  | printFirst
  | next
  | addNext
  | quit (prints : Bool) (status : Nat)
  | number
  | insert (t : Text)
  | append (t : Text)
  | change (t : Text)
  | hold
  | addToHold
  | get
  | addHeld
  | exchange
  /-- Goes on behind a label, or at the end without one; it may take a substitution to go there. -/
  | branch (label : Text) (isConditional : Bool)
  | label (name : Text)
  | block (length : Nat)

structure Instruction where
  scope : Scope
  edit : Edit

abbrev Script := List Instruction

/-- What is wrong with a script, and what is left of it behind that place if there is a place. -/
structure Fault where
  message : Text
  rest : Option Text

def readDelimited (delimiter : Char) : Text → Option (Text × Text)
  | [] => none
  | '\\' :: c :: rest => (readDelimited delimiter rest).map fun (t, r) =>
      (if c = delimiter then c :: t else '\\' :: c :: t, r)
  | c :: rest =>
      if c = delimiter then some ([], rest)
      else (readDelimited delimiter rest).map fun (t, r) => (c :: t, r)

def readReplacement : Text → List Replacement
  | '\\' :: 'n' :: rest => .char '\n' :: readReplacement rest
  | '\\' :: 't' :: rest => .char '\t' :: readReplacement rest
  | '\\' :: 'U' :: rest => .letters .upper false :: readReplacement rest
  | '\\' :: 'L' :: rest => .letters .lower false :: readReplacement rest
  | '\\' :: 'E' :: rest => .letters .asIs false :: readReplacement rest
  | '\\' :: 'u' :: rest => .letters .upper true :: readReplacement rest
  | '\\' :: 'l' :: rest => .letters .lower true :: readReplacement rest
  | '\\' :: c :: rest =>
      (if c.isDigit then .group (c.toNat - '0'.toNat) else .char c) :: readReplacement rest
  | '&' :: rest => .group 0 :: readReplacement rest
  | c :: rest => .char c :: readReplacement rest
  | [] => []

def readExpression (isExtended : Bool) (t rest : Text) : Except Fault (Option Regular) :=
  if t = [] then .ok none
  else
    match Regular.read isExtended t with
    | .ok r => .ok (some r)
    | .error fault => .error ⟨fault.message, rest⟩

def readNumber (t : Text) : Nat × Text :=
  let digits := t.takeWhile Char.isDigit
  ((number? digits).getD 0, t.drop digits.length)

def readAddress (isExtended : Bool) (t : Text) : Except Fault (Option Address × Text) :=
  let fitting (delimiter : Char) (t : Text) : Except Fault (Option Address × Text) :=
    match readDelimited delimiter t with
    | none => .error ⟨"unterminated address regex", some []⟩
    | some (expression, rest) => do
        let r ← readExpression isExtended expression rest
        match rest with
        | 'I' :: rest => return (some (.fits ⟨r, true⟩), rest)
        | rest => return (some (.fits ⟨r, false⟩), rest)
  match t with
  | '$' :: rest => .ok (some .last, rest)
  | '/' :: rest => fitting '/' rest
  | '\\' :: delimiter :: rest => fitting delimiter rest
  | c :: _ =>
      if c.isDigit then
        match readNumber t with
        | (n, '~' :: rest) =>
            let (distance, rest) := readNumber rest
            .ok (some (.step n distance), rest)
        | (n, rest) => .ok (some (.line n), rest)
      else .ok (none, t)
  | [] => .ok (none, [])

def skipBlanks (t : Text) : Text := t.dropWhile fun c => c = ' ' || c = '\t'

def readLastAddress (isExtended : Bool) (t : Text) : Except Fault (Option Address × Text) :=
  match t with
  | '+' :: rest =>
      let (n, rest) := readNumber rest
      .ok (some (.behind n), rest)
  | '~' :: rest =>
      let (n, rest) := readNumber rest
      .ok (some (.multiple n), rest)
  | t => do
      match ← readAddress isExtended t with
      | (none, rest) => .error ⟨"unexpected `,'", rest.drop 1⟩
      | result => return result

def readScope (isExtended : Bool) (t : Text) : Except Fault (Scope × Text) := do
  let (first, rest) ← readAddress isExtended t
  let (last, rest) ← match skipBlanks rest with
    | ',' :: more =>
        if first.isNone then .error ⟨"unexpected `,'", more⟩
        else readLastAddress isExtended (skipBlanks more)
    | rest => .ok (none, rest)
  match rest with
  | '!' :: rest => return ({ first, last, isInverted := true }, skipBlanks (rest.dropWhile (· = '!')))
  | rest => return ({ first, last }, rest)

def readFlags (s : Substitution) : Text → Except Fault (Substitution × Text)
  | 'g' :: rest => readFlags { s with isGlobal := true } rest
  | 'p' :: rest => readFlags { s with prints := true } rest
  | 'i' :: rest | 'I' :: rest => readFlags { s with wanted := { s.wanted with caseless := true } } rest
  | c :: rest =>
      if c.isDigit then
        if c = '0' then .error ⟨"number option to `s' command may not be zero", rest⟩
        else readFlags { s with first := c.toNat - '0'.toNat } rest
      else if c = ' ' then readFlags s rest
      else if c ∈ ['\n', ';', '}', '#'] then .ok (s, c :: rest)
      else .error ⟨"unknown option to `s'", rest⟩
  | [] => .ok (s, [])

def groupsIn (parts : List Replacement) : Nat :=
  (parts.map fun
    | .group n => n
    | _ => 0).foldl max 0

def readSubstitution (isExtended : Bool) (t : Text) : Except Fault (Edit × Text) := do
  let unterminated : Fault := ⟨"unterminated `s' command", some []⟩
  match t with
  | [] => .error unterminated
  | delimiter :: t =>
      match readDelimited delimiter t with
      | none => .error unterminated
      | some (expression, rest) =>
          match readDelimited delimiter rest with
          | none => .error unterminated
          | some (replacement, rest) => do
              let replacement := readReplacement replacement
              let (s, after) ← readFlags { wanted := ⟨none, false⟩, replacement } rest
              let expression ← readExpression isExtended expression after
              let highest := groupsIn replacement
              if expression.any (·.groupCount < highest) then
                .error
                  ⟨"invalid reference \\" ++ Text.ofNat highest ++ " on `s' command's RHS", after⟩
              else return (.substitute { s with wanted := { s.wanted with expression } }, after)

def plainChars : Text → Text
  | '\\' :: '\\' :: rest => '\\' :: plainChars rest
  | '\\' :: 'n' :: rest => '\n' :: plainChars rest
  | c :: rest => c :: plainChars rest
  | [] => []

def readPairs (t : Text) : Except Fault (Edit × Text) := do
  let unterminated : Fault := ⟨"unterminated `y' command", some []⟩
  match t with
  | [] => .error unterminated
  | delimiter :: t =>
      match readDelimited delimiter t with
      | none => .error unterminated
      | some (source, rest) =>
          match readDelimited delimiter rest with
          | none => .error unterminated
          | some (target, rest) =>
              let (source, target) := (plainChars source, plainChars target)
              if source.length = target.length then .ok (.replaceChars (source.zip target), rest)
              else .error ⟨"strings for `y' command are different lengths", rest⟩

def readLines : Text → Text × Text
  | '\\' :: c :: rest =>
      let (t, rest) := readLines rest
      (c :: t, rest)
  | '\n' :: rest => ([], rest)
  | c :: rest =>
      let (t, rest) := readLines rest
      (c :: t, rest)
  | [] => ([], [])

def readArgument (make : Text → Edit) (t : Text) : Except Fault (Edit × Text) :=
  match skipBlanks t with
  | [] => .error ⟨"expected \\ after `a', `c' or `i'", some []⟩
  | '\\' :: '\n' :: rest =>
      let (t, rest) := readLines rest
      .ok (make (t ++ ['\n']), rest)
  | '\\' :: rest =>
      let (t, rest) := readLines (skipBlanks rest)
      .ok (make (t ++ ['\n']), rest)
  | rest =>
      let (t, rest) := readLines rest
      .ok (make (t ++ ['\n']), rest)

def readLabel (t : Text) : Text × Text :=
  let t := skipBlanks t
  let name := t.takeWhile fun c => !([' ', '\n', ';', '}'].contains c)
  (name, t.drop name.length)

def readEdit (isExtended : Bool) (letter : Char) (t : Text) : Except Fault (Edit × Text) :=
  let plain (e : Edit) : Except Fault (Edit × Text) := .ok (e, t)
  match letter with
  | 's' => readSubstitution isExtended t
  | 'y' => readPairs t
  | 'd' => plain .delete
  | 'D' => plain .deleteFirst
  | 'p' => plain .print
  | 'P' => plain .printFirst
  | 'n' => plain .next
  | 'N' => plain .addNext
  | '=' => plain .number
  | 'h' => plain .hold
  | 'H' => plain .addToHold
  | 'g' => plain .get
  | 'G' => plain .addHeld
  | 'x' => plain .exchange
  | 'q' =>
      let (status, rest) := readNumber (skipBlanks t)
      .ok (.quit true status, rest)
  | 'Q' =>
      let (status, rest) := readNumber (skipBlanks t)
      .ok (.quit false status, rest)
  | 'a' => readArgument .append t
  | 'i' => readArgument .insert t
  | 'c' => readArgument .change t
  | 'b' =>
      let (name, rest) := readLabel t
      .ok (.branch name false, rest)
  | 't' =>
      let (name, rest) := readLabel t
      .ok (.branch name true, rest)
  | ':' =>
      let (name, rest) := readLabel t
      if name = [] then .error ⟨"\":\" lacks a label", rest⟩ else .ok (.label name, rest)
  | c => .error ⟨"unknown command: `" ++ [c, '\''], t⟩

def takesLine (letter : Char) : Bool := letter ∈ ['a', 'i', 'c']

def checkEnd (t : Text) : Except Fault Text :=
  match skipBlanks t with
  | [] => .ok []
  | ';' :: rest | '\n' :: rest => .ok rest
  | '}' :: rest => .ok ('}' :: rest)
  | '#' :: rest => .ok ('#' :: rest)
  | _ :: rest => .error ⟨"extra characters after command", rest⟩

def readScript (isExtended : Bool) : Nat → Bool → Text → Except Fault (Script × Text)
  | 0, _, t => .error ⟨"script too long", t⟩
  | fuel + 1, isInside, t => do
      match t.dropWhile fun c => c ∈ [' ', '\t', '\n', ';'] with
      | [] => if isInside then .error ⟨"unmatched `\x7b'", none⟩ else return ([], [])
      | '#' :: rest => readScript isExtended fuel isInside (rest.dropWhile (· ≠ '\n'))
      | '}' :: rest =>
          if isInside then return ([], ← checkEnd rest)
          else .error ⟨"unexpected `\x7d'", rest⟩
      | t => do
          let (scope, rest) ← readScope isExtended t
          match skipBlanks rest with
          | [] => .error ⟨"missing command", some []⟩
          | '{' :: rest => do
              let (body, rest) ← readScript isExtended fuel true rest
              let (script, rest) ← readScript isExtended fuel isInside rest
              return (⟨scope, .block body.length⟩ :: body ++ script, rest)
          | letter :: rest => do
              let (edit, rest) ← readEdit isExtended letter rest
              let rest ← if takesLine letter then .ok rest else checkEnd rest
              let (script, rest) ← readScript isExtended fuel isInside rest
              return (⟨scope, edit⟩ :: script, rest)

end ScriptWeave.Shell.Utility.Editor
