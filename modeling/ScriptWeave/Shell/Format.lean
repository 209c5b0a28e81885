import ScriptWeave.Shell.Arithmetic
import ScriptWeave.Text.Basic

namespace ScriptWeave.Shell

def isOctal (c : Char) : Bool := '0' ≤ c && c ≤ '7'

def octalValue (digits : Text) : Nat :=
  digits.foldl (fun n d => 8 * n + (d.toNat - '0'.toNat)) 0

def readOctal (t : Text) : Char × Text :=
  let digits := (t.take 3).takeWhile isOctal
  (Char.ofNat (octalValue digits % 256), t.drop digits.length)

def escapeOf? (c : Char) : Option Char :=
  if c = 'a' then some '\x07'
  else if c = 'b' then some '\x08'
  else if c = 'e' then some '\x1b'
  else if c = 'f' then some '\x0c'
  else if c = 'n' then some '\n'
  else if c = 'r' then some '\r'
  else if c = 't' then some '\t'
  else if c = 'v' then some '\x0b'
  else if c = '\\' then some '\\'
  else none

def readEscape (t : Text) : Char × Text :=
  match t with
  | [] => ('\\', [])
  | c :: rest =>
      match escapeOf? c with
      | some e => (e, rest)
      | none => if isOctal c then readOctal (c :: rest) else ('\\', c :: rest)

/-- The text with its escapes replaced, and whether printing goes on behind it; `\c` ends it. An
octal escape may have a further zero in front. -/
def unescapeWithin : Nat → Text → Text × Bool
  | 0, t => (t, true)
  | _ + 1, [] => ([], true)
  | _ + 1, '\\' :: 'c' :: _ => ([], false)
  | fuel + 1, '\\' :: rest =>
      let (c, rest) := match rest with
        | '0' :: d :: more => if isOctal d then readOctal (d :: more) else readEscape rest
        | rest => readEscape rest
      let (t, goesOn) := unescapeWithin fuel rest
      (c :: t, goesOn)
  | fuel + 1, c :: rest =>
      let (t, goesOn) := unescapeWithin fuel rest
      (c :: t, goesOn)

def unescape (t : Text) : Text × Bool := unescapeWithin (t.length + 1) t

def echoText : List Text → Text
  | [] => ['\n']
  | [t] =>
      let (t, goesOn) := unescape t
      if goesOn then t ++ ['\n'] else t
  | t :: t' :: ts =>
      let (t, goesOn) := unescape t
      if goesOn then t ++ ' ' :: echoText (t' :: ts) else t

def echoTextOpen (ts : List Text) : Text :=
  if ts.all fun t => (unescape t).2 then (echoText ts).dropLast else echoText ts

inductive Magnitude where
  | finite (mantissa : Nat) (exponent : Int)
  | infinite
  | undefined
  deriving DecidableEq, Repr

def roundQuotient (a b : Nat) : Nat :=
  let q := a / b
  let twice := 2 * (a % b)
  if twice < b then q else if b < twice then q + 1 else if q % 2 = 0 then q else q + 1

def scale (base : Nat) (exponent : Int) (a b : Nat) : Nat × Nat :=
  if 0 ≤ exponent then (a * Nat.pow base exponent.toNat, b)
  else (a, b * Nat.pow base exponent.natAbs)

namespace Magnitude

def exponentOf (a b : Nat) : Int :=
  let guess := (Nat.log2 a : Int) - Nat.log2 b - 52
  let (c, d) := scale 2 (-guess) a b
  max (-1074) (if c < d * 0x10000000000000 then guess - 1 else guess)

def nearest (a b : Nat) : Magnitude :=
  if a = 0 then .finite 0 0
  else
    let e := exponentOf a b
    let (c, d) := scale 2 (-e) a b
    let m := roundQuotient c d
    if 971 < e ∨ (e = 971 ∧ 0x20000000000000 ≤ m) then .infinite else .finite m e

end Magnitude

def takeDigits (base : Nat) (t : Text) : Text × Text :=
  let digits := t.takeWhile (Arithmetic.digitValue · < base)
  (digits, t.drop digits.length)

def readExponent (letter : Char) (t : Text) : Int × Text :=
  match t with
  | c :: rest =>
      if c.toLower != letter then (0, t)
      else
        let (isNegative, rest) := match rest with
          | '-' :: rest => (true, rest)
          | '+' :: rest => (false, rest)
          | rest => (false, rest)
        match takeDigits 10 rest with
        | ([], _) => (0, t)
        | (digits, rest) =>
            let n := min 100000 (Arithmetic.valueOf 10 digits)
            (if isNegative then -(n : Int) else n, rest)
  | [] => (0, [])

def readScaled? (base : Nat) (letter : Char) (power : Nat) (t : Text) : Option (Magnitude × Text) :=
  let (whole, rest) := takeDigits base t
  let (fraction, rest) := match rest with
    | '.' :: more =>
        let (fraction, behind) := takeDigits base more
        if whole = [] ∧ fraction = [] then ([], rest) else (fraction, behind)
    | rest => ([], rest)
  if whole = [] ∧ fraction = [] then none
  else
    let (exponent, rest) := readExponent letter rest
    let (a, b) := scale power exponent (Arithmetic.valueOf base (whole ++ fraction))
      (Nat.pow base fraction.length)
    some (.nearest a b, rest)

def afterWord? (word : String) (t : Text) : Option Text :=
  if (t.take word.length).map Char.toLower = word.toList then some (t.drop word.length) else none

def readMagnitude? (t : Text) : Option (Magnitude × Text) :=
  match (afterWord? "infinity" t).orElse fun _ => afterWord? "inf" t, afterWord? "nan" t with
  | some rest, _ => some (.infinite, rest)
  | none, some rest => some (.undefined, rest)
  | none, none =>
      match (afterWord? "0x" t).bind (readScaled? 16 'p' 2) with
      | some result => some result
      | none => readScaled? 10 'e' 10 t

def readFraction? (t : Text) : Option (Bool × Magnitude × Text) :=
  match t.dropWhile Arithmetic.isBlank with
  | '-' :: rest => (readMagnitude? rest).map (true, ·)
  | '+' :: rest => (readMagnitude? rest).map (false, ·)
  | rest => (readMagnitude? rest).map (false, ·)

def withPoint (showsPoint : Bool) (places : Nat) (digits : Text) : Text :=
  let digits := List.replicate (places + 1 - digits.length) '0' ++ digits
  let whole := digits.take (digits.length - places)
  if places = 0 ∧ !showsPoint then whole else whole ++ '.' :: digits.drop whole.length

def layPlain (showsPoint : Bool) (places a b : Nat) : Text :=
  withPoint showsPoint places (Text.ofNat (roundQuotient (a * Nat.pow 10 places) b))

def leadingPower (a b : Nat) : Int :=
  let guess : Int := ((Text.ofNat a).length : Int) - (Text.ofNat b).length
  let (c, d) := scale 10 (-guess) a b
  if c < d then guess - 1 else guess

def leadingDigits (places a b : Nat) : Text × Int :=
  if a = 0 then (List.replicate (places + 1) '0', 0)
  else
    let power := leadingPower a b
    let (c, d) := scale 10 (places - power) a b
    let digits := Text.ofNat (roundQuotient c d)
    if digits.length = places + 1 then (digits, power) else (digits.take (places + 1), power + 1)

def layScientific (showsPoint : Bool) (places a b : Nat) : Text :=
  let (digits, power) := leadingDigits places a b
  let exponent := Text.ofNat power.natAbs
  withPoint showsPoint places digits ++ ['e', if power < 0 then '-' else '+'] ++
    List.replicate (2 - exponent.length) '0' ++ exponent

def dropLastZeros (t : Text) : Text :=
  if '.' ∈ t then
    match t.reverse.dropWhile (· = '0') with
    | '.' :: rest => rest.reverse
    | rest => rest.reverse
  else t

def layGeneral (keepsZeros : Bool) (precision a b : Nat) : Text :=
  let precision := max 1 precision
  let (_, power) := leadingDigits (precision - 1) a b
  let trim (t : Text) : Text := if keepsZeros then t else dropLastZeros t
  if power < -4 ∨ (precision : Int) ≤ power then
    let t := layScientific keepsZeros (precision - 1) a b
    let mantissa := t.takeWhile (· ≠ 'e')
    trim mantissa ++ t.drop mantissa.length
  else trim (layPlain keepsZeros ((precision : Int) - 1 - power).toNat a b)

def layMagnitude (kind : Char) (keeps : Bool) (precision : Nat) : Magnitude → Text
  | .infinite => "inf"
  | .undefined => "nan"
  | .finite m e =>
      let (a, b) := scale 2 e m 1
      match kind with
      | 'f' => layPlain keeps precision a b
      | 'e' => layScientific keeps precision a b
      | _ => layGeneral keeps precision a b

structure Directive where
  flags : Text := []
  width : Nat := 0
  precision : Option Nat := none
  deriving DecidableEq, Repr

namespace Directive

def has (d : Directive) (flag : Char) : Bool := d.flags.contains flag

def fill (d : Directive) (zeros : Bool) (front t : Text) : Text :=
  let missing := d.width - (front.length + t.length)
  if d.has '-' then front ++ t ++ List.replicate missing ' '
  else if zeros then front ++ List.replicate missing '0' ++ t
  else List.replicate missing ' ' ++ front ++ t

def layText (d : Directive) (t : Text) : Text :=
  d.fill false [] (match d.precision with
    | some n => t.take n
    | none => t)

def layDigits (d : Directive) (front digits : Text) : Text :=
  match d.precision with
  | some n =>
      let digits := if n = 0 && digits = ['0'] then [] else digits
      d.fill false front (List.replicate (n - digits.length) '0' ++ digits)
  | none => d.fill (d.has '0') front digits

def signOf (d : Directive) (isNegative : Bool) : Text :=
  if isNegative then ['-'] else if d.has '+' then ['+'] else if d.has ' ' then [' '] else []

def laySigned (d : Directive) (n : Int) : Text :=
  d.layDigits (d.signOf (n < 0)) (Text.ofNat n.natAbs)

def layFraction (d : Directive) (kind : Char) (isNegative : Bool) (m : Magnitude) : Text :=
  let t := layMagnitude kind.toLower (d.has '#') (d.precision.getD 6) m
  let isFinite := match m with
    | .finite _ _ => true
    | _ => false
  d.fill (d.has '0' && isFinite) (d.signOf isNegative)
    (if kind.isUpper then t.map Char.toUpper else t)

def layUnsigned (d : Directive) (kind : Char) (n : Nat) : Text :=
  if kind = 'o' then
    let digits := Nat.toDigits 8 n
    d.layDigits [] (if d.has '#' && n ≠ 0 then '0' :: digits else digits)
  else if kind = 'x' || kind = 'X' then
    let digits := Nat.toDigits 16 n
    let front : Text := if d.has '#' && n ≠ 0 then ['0', kind] else []
    d.layDigits front (if kind = 'X' then digits.map Char.toUpper else digits)
  else d.layDigits [] (Text.ofNat n)

end Directive

structure Printing where
  arguments : List Text
  output : List Text := []
  problems : List Text := []
  deriving DecidableEq, Repr

abbrev Formatter (α : Type) := ExceptT (Option Text) (StateM Printing) α

namespace Formatter

def print (t : Text) : Formatter Unit := modify fun p => { p with output := t :: p.output }

def report (t : Text) : Formatter Unit := modify fun p => { p with problems := t :: p.problems }

def take : Formatter (Option Text) := do
  let p ← get
  set { p with arguments := p.arguments.drop 1 }
  return p.arguments.head?

/-- The number that an argument is; what is behind it is reported. A quotation mark in front stands
for the number of the character behind it. -/
def number (clamp : Int → Int) : Formatter Int := do
  match ← take with
  | none => return 0
  | some t =>
      if t.head? = some '"' ∨ t.head? = some '\'' then
        return ((t.drop 1).head?.map Char.toNat).getD 0
      else
        match Arithmetic.readInteger? none t with
        | none => do
            if t != [] then report (t ++ ": expected numeric value")
            return 0
        | some (n, rest) => do
            if rest != [] then report (t ++ ": not completely converted")
            else if clamp n ≠ n then report (t ++ ": Numerical result out of range")
            return clamp n

def signed : Formatter Int := number Arithmetic.clamp

def unsigned : Formatter Nat := do
  let n ← number fun n => if n.natAbs ≤ 0xffffffffffffffff then n else 0xffffffffffffffff
  if n < 0 then return (n + 0x10000000000000000).toNat else return n.toNat

def fraction : Formatter (Bool × Magnitude) := do
  match ← take with
  | none => return (false, .finite 0 0)
  | some t =>
      if t.head? = some '"' ∨ t.head? = some '\'' then
        return (false, .nearest (((t.drop 1).head?.map Char.toNat).getD 0) 1)
      else
        match readFraction? t with
        | none => do
            if t != [] then report (t ++ ": expected numeric value")
            return (false, .finite 0 0)
        | some (isNegative, m, rest) => do
            if rest != [] then report (t ++ ": not completely converted")
            else if m = .infinite ∧ t.any Char.isDigit then
              report (t ++ ": Numerical result out of range")
            return (isNegative, m)

def readSize (form : Text) : Formatter (Int × Text) := do
  match form with
  | '*' :: rest => return (← signed, rest)
  | form =>
      let digits := form.takeWhile Char.isDigit
      return (Arithmetic.valueOf 10 digits, form.drop digits.length)

def readDirective (form : Text) : Formatter (Directive × Text) := do
  let flags := form.takeWhile (['#', '-', '+', ' ', '0'].contains ·)
  let (width, rest) ← readSize (form.drop flags.length)
  let flags := if width < 0 then '-' :: flags else flags
  match rest with
  | '.' :: rest => do
      let (precision, rest) ← readSize rest
      return (⟨flags, width.natAbs, if precision < 0 then none else some precision.toNat⟩, rest)
  | rest => return (⟨flags, width.natAbs, none⟩, rest)

def printDirective (d : Directive) (kind : Char) (written : Text) : Formatter Unit := do
  if kind = 's' then print (d.layText ((← take).getD []))
  else if kind = 'b' then
    let (t, goesOn) := unescape ((← take).getD [])
    print (d.layText t)
    if !goesOn then throw none
  else if kind = 'c' then print (d.layText [((← take).getD []).head?.getD '\x00'])
  else if kind = 'd' ∨ kind = 'i' then print (d.laySigned (← signed))
  else if kind ∈ ['e', 'E', 'f', 'F', 'g', 'G'] then
    let (isNegative, m) ← fraction
    print (d.layFraction kind isNegative m)
  else if kind ∈ ['o', 'u', 'x', 'X'] then print (d.layUnsigned kind (← unsigned))
  else
    let complaint : Text := written ++ ": invalid directive"
    throw (some complaint)

def printForm : Nat → Text → Formatter Unit
  | 0, _ => return ()
  | _ + 1, [] => return ()
  | fuel + 1, '\\' :: rest => do
      let (c, rest) := readEscape rest
      print [c]
      printForm fuel rest
  | fuel + 1, '%' :: '%' :: rest => do
      print ['%']
      printForm fuel rest
  | fuel + 1, '%' :: rest => do
      match ← readDirective rest with
      | (d, kind :: more) => do
          printDirective d kind ('%' :: rest.take (rest.length - more.length))
          printForm fuel more
      | (_, []) => throw (some "missing format character".toList)
  | fuel + 1, c :: rest => do
      print [c]
      printForm fuel rest

def printAll : Nat → Text → Formatter Unit
  | 0, _ => return ()
  | passes + 1, form => do
      let before := (← get).arguments.length
      printForm (form.length + 1) form
      let left := (← get).arguments.length
      if left ≠ 0 ∧ left < before then printAll passes form

end Formatter

def format (form : Text) (arguments : List Text) : Text × List Text × Option Text :=
  let (result, p) := (Formatter.printAll (arguments.length + 1) form).run.run { arguments }
  let stopped := match result with
    | .error complaint => complaint
    | .ok () => none
  (p.output.reverse.flatten, p.problems.reverse, stopped)

end ScriptWeave.Shell
