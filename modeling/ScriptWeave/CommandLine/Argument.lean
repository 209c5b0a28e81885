import ScriptWeave.Text.CharClass
import ScriptWeave.Text.Quoted

namespace ScriptWeave.CommandLine

inductive Switch where
  | help
  | output
  | reference
  | debug
  | config
  | cacheDirectory
  | compiler
  | noHoist
  | json
  | verbose
  deriving DecidableEq, Repr

namespace Switch

def spellings : Switch → List Text
  | .help => ["-h", "--help"]
  | .output => ["-o", "--output"]
  | .reference => ["-r", "--reference"]
  | .debug => ["--debug"]
  | .config => ["--config"]
  | .cacheDirectory => ["--cache-dir"]
  | .compiler => ["--compiler"]
  | .noHoist => ["--no-hoist"]
  | .json => ["--json"]
  | .verbose => ["-v", "--verbose"]

def all : List Switch :=
  [.help, .output, .reference, .debug, .config, .cacheDirectory, .compiler, .noHoist, .json,
    .verbose]

def takesValue : Switch → Bool
  | .output | .reference | .config | .cacheDirectory | .compiler => true
  | _ => false

def name (s : Switch) : Text := Text.joinWith ['/'] s.spellings

def ofSpelling? (t : Text) : Option Switch := all.find? fun s => s.spellings.contains t

def completions (t : Text) : List (Text × Switch) :=
  all.flatMap fun s => (s.spellings.filter t.isPrefixOf).map (·, s)

end Switch

inductive Argument where
  | value (t : Text)
  | separator
  /-- `isShort` tells a switch of one letter, behind which others may follow. What is attached to a
  switch stands in the same argument, behind its letter or behind an equals sign. -/
  | switch (s : Switch) (isShort : Bool) (attached : Option Text)
  | unknown (t : Text)
  deriving DecidableEq, Repr

inductive UsageFault where
  | ambiguous (given : Text) (candidates : List Text)
  | expectedValue (s : Switch)
  | ignoredValue (s : Switch) (value : Text)
  | missing (names : List Text)
  | unrecognized (arguments : List Text)
  deriving DecidableEq, Repr

def UsageFault.message : UsageFault → Text
  | .ambiguous given candidates =>
      "ambiguous option: " ++ given ++ " could match " ++ Text.joinWith ", " candidates
  | .expectedValue s => "argument " ++ s.name ++ ": expected one argument"
  | .ignoredValue s value =>
      "argument " ++ s.name ++ ": ignored explicit argument " ++ Text.quoted value
  | .missing names => "the following arguments are required: " ++ Text.joinWith ", " names
  | .unrecognized arguments => "unrecognized arguments: " ++ Text.joinWith [' '] arguments

def UsageFault.line (f : UsageFault) : Text := "mergec: error: " ++ f.message

namespace Argument

def splitMark (t : Text) : Text × Option Text :=
  match t.dropWhile (· ≠ '=') with
  | [] => (t, none)
  | _ :: behind => (t.takeWhile (· ≠ '='), some behind)

def isDigits (t : Text) : Bool := t != [] && t.all Text.isDecimal

def dropLineFeed (t : Text) : Text := if t.getLast? = some '\n' then t.dropLast else t

/-- A whole number or one with a fraction, in plain notation. One line feed may follow. -/
def isNumber (t : Text) : Bool :=
  let t := dropLineFeed t
  isDigits t ||
    match t.dropWhile Text.isDecimal with
    | '.' :: fraction => isDigits fraction
    | _ => false

/-- An argument that is no switch although it looks like one. Negative numbers and texts with
spaces are values. -/
def ofOther (t : Text) : Argument :=
  if isNumber (t.drop 1) || t.contains ' ' then .value t else .unknown t

def ofLong (t : Text) : Except UsageFault Argument :=
  let (given, attached) := splitMark t
  match Switch.completions given with
  | [] => .ok (ofOther t)
  | [(_, s)] => .ok (.switch s false attached)
  | candidates => .error (.ambiguous t (candidates.map (·.1)))

def ofShort (t : Text) : Argument :=
  match Switch.ofSpelling? (t.take 2) with
  | some s => .switch s true (some (t.drop 2))
  | none => ofOther t

def isShortSpelling (t : Text) : Bool := t.length = 2

def read (t : Text) : Except UsageFault Argument :=
  match t, Switch.ofSpelling? t with
  | _, some s => .ok (.switch s (isShortSpelling t) none)
  | '-' :: _ :: _, none =>
      let (given, attached) := splitMark t
      match attached, Switch.ofSpelling? given with
      | some _, some s => .ok (.switch s (isShortSpelling given) attached)
      | _, _ => if t.take 2 = "--".toList then ofLong t else .ok (ofShort t)
  | _, none => .ok (.value t)

def readAll : List Text → Except UsageFault (List Argument)
  | [] => .ok []
  | t :: ts =>
      if t = "--".toList then .ok (.separator :: ts.map .value)
      else
        match read t with
        | .error fault => .error fault
        | .ok a => (readAll ts).map (a :: ·)

def plainText : Argument → Text
  | .value t | .unknown t => t
  | .separator => "--"
  | .switch s _ _ => s.name

end Argument

end ScriptWeave.CommandLine
