import ScriptWeave.Shell.Utility.Basic

namespace ScriptWeave.Shell.Utility

def withoutBreak (line : Text) : Text := line.filter (· ≠ '\n')

def dropEmptyRepeats : List Text → List Text
  | [] => []
  | line :: lines =>
      if line = ['\n'] ∧ lines.head? = some ['\n'] then dropEmptyRepeats lines
      else line :: dropEmptyRepeats lines

def alignRight (width : Nat) (t : Text) : Text := List.replicate (width - t.length) ' ' ++ t

def numberLines (skipsEmpty : Bool) : Nat → List Text → List Text
  | _, [] => []
  | n, line :: lines =>
      if skipsEmpty && line = ['\n'] then line :: numberLines skipsEmpty n lines
      else (alignRight 6 (Text.ofNat n) ++ '\t' :: line) :: numberLines skipsEmpty (n + 1) lines

def showMarks (ends tabs : Bool) (line : Text) : Text :=
  line.flatMap fun c =>
    if c = '\n' && ends then ['$', '\n'] else if c = '\t' && tabs then ['^', 'I'] else [c]

def showContent (o : Options) (content : Text) : Text :=
  let lines := linesOf content
  let lines := if o.has 's' then dropEmptyRepeats lines else lines
  let lines := lines.map (showMarks (o.hasAny ['A', 'E', 'e']) (o.hasAny ['A', 'T', 't']))
  (if o.has 'b' then numberLines true 1 lines
    else if o.has 'n' then numberLines false 1 lines else lines).flatten

def cat : List Text → Run Nat :=
  let table : OptionTable := {
    flags := "AbeEnstTuv"
    names := [("number", 'n'), ("show-ends", 'E'), ("show-all", 'A'), ("show-tabs", 'T')] }
  withOptions "cat" table fun o =>
    forFiles "cat" (fun _ content =>
      emit (if o.given = [] then content else showContent o content)) (orInput o.operands)

def tee : List Text → Run Nat :=
  withOptions "tee" { flags := "aip", names := [("append", 'a')] } fun o => do
    let t := (← readInput).toOption.getD []
    let _ ← emit t
    let statuses ← o.operands.mapM fun file => do
      let p := (← get).locate file
      let result ←
        if o.has 'a' then Procedure.ask (.append p (toBytes t))
        else Procedure.ask (.write p (toBytes t))
      match result with
      | .error e => fail "tee" (file ++ ": " ++ e.cause.reason)
      | .ok () => return 0
    return statuses.foldl max 0

structure Portion where
  count : Nat := 10
  inBytes : Bool := false
  isRest : Bool := false

def Portion.ofStart (p : Portion) (content : Text) : Text :=
  let pieces := if p.inBytes then content.map ([·]) else linesOf content
  (pieces.take (if p.isRest then pieces.length - p.count else p.count)).flatten

def Portion.ofEnd (p : Portion) (content : Text) : Text :=
  let pieces := if p.inBytes then content.map ([·]) else linesOf content
  (pieces.drop (if p.isRest then p.count - 1 else pieces.length - p.count)).flatten

def Portion.ofText? (restSign : Char) (inBytes : Bool) (t : Text) : Option Portion :=
  match t with
  | '+' :: digits => (number? digits).map (⟨·, inBytes, restSign = '+'⟩)
  | '-' :: digits => (number? digits).map (⟨·, inBytes, restSign = '-'⟩)
  | digits => (number? digits).map (⟨·, inBytes, false⟩)

def modernCount : List Text → List Text
  | ('-' :: d :: digits) :: rest =>
      if (d :: digits).all Char.isDigit then ['-', 'n'] :: (d :: digits) :: rest
      else ('-' :: d :: digits) :: rest
  | rest => rest

def printParts (name : Text) (o : Options) (part : Text → Text) : Run Nat := do
  let files := orInput o.operands
  let hasTitles := o.has 'v' || (1 < files.length && !o.has 'q')
  let statuses ← (files.zipIdx).mapM fun (file, i) => do
    match ← readFile file with
    | .error cause =>
        fail name ("cannot open '" ++ file ++ "' for reading: " ++ cause.reason)
    | .ok content =>
        let title : Text := if file = ['-'] then "standard input" else file
        let lead : Text := if i = 0 then "==> " else "\n==> "
        emit ((if hasTitles then lead ++ title ++ " <==\n" else []) ++ part content)
  return statuses.foldl max 0

def printPortion (name : Text) (restSign : Char) (part : Portion → Text → Text)
    (arguments : List Text) : Run Nat :=
  let table : OptionTable := {
    flags := "fFqvz"
    valued := "ncs"
    names := [("lines", 'n'), ("bytes", 'c'), ("quiet", 'q'), ("verbose", 'v')] }
  withOptions name table (fun o => do
    let (unit, inBytes, written) : Text × Bool × Text := match o.value? 'c', o.value? 'n' with
      | some t, _ => ("bytes", true, t)
      | none, some t => ("lines", false, t)
      | none, none => ("lines", false, "10")
    match Portion.ofText? restSign inBytes written with
    | some p => printParts name o (part p)
    | none => fail name ("invalid number of " ++ unit ++ ": '" ++ written ++ "'"))
    (modernCount arguments)

def head : List Text → Run Nat := printPortion "head" '-' Portion.ofStart

def tail : List Text → Run Nat := printPortion "tail" '+' Portion.ofEnd

def wordCount (t : Text) : Nat :=
  ((Text.pieces (fun c => c = ' ' || ('\t' ≤ c && c ≤ '\r')) t).filter (· != [])).length

def countsOf (o : Options) (t : Text) : List Nat :=
  let counts := [('l', t.count '\n'), ('w', wordCount t), ('m', t.length), ('c', t.length)]
  let isAsked (letter : Char) : Bool :=
    if o.hasAny ['l', 'w', 'm', 'c'] then o.has letter else letter ≠ 'm'
  (counts.filter (isAsked ·.1)).map (·.2)

def countLine (width : Nat) (counts : List Nat) (name : Text) : Text :=
  let shown := counts.map fun n => alignRight width (Text.ofNat n)
  Text.joinWith [' '] (shown ++ if name = [] then [] else [name]) ++ ['\n']

def wc : List Text → Run Nat :=
  let table : OptionTable := {
    flags := "clmwL"
    names := [("lines", 'l'), ("words", 'w'), ("bytes", 'c'), ("chars", 'm')] }
  withOptions "wc" table fun o => do
    let isSingle := (countsOf o []).length = 1
    if o.operands = [] then
      let t := (← readInput).toOption.getD []
      emit (countLine (if isSingle then 1 else 7) (countsOf o t) [])
    else
      let contents ← o.operands.mapM readFile
      let whole := (contents.filterMap (·.toOption)).flatten
      let width := if isSingle && o.operands.length = 1 then 1 else (Text.ofNat whole.length).length
      let statuses ← (o.operands.zip contents).mapM fun (file, content) =>
        match content with
        | .ok t => emit (countLine width (countsOf o t) file)
        | .error cause => fail "wc" (file ++ ": " ++ cause.reason)
      let status ←
        if o.operands.length ≤ 1 then pure 0 else emit (countLine width (countsOf o whole) "total")
      return statuses.foldl max status

def keyOf (o : Options) (line : Text) : Text :=
  match (o.value? 'k').bind fun t => number? (t.takeWhile Char.isDigit) with
  | none => line
  | some n =>
      match o.value? 't' with
      | some [separator] =>
          Text.joinWith [separator] ((Text.pieces (· = separator) line).drop (n - 1))
      | _ => dropFields (n - 1) line
where
  dropFields : Nat → Text → Text
    | 0, t => t
    | n + 1, t => dropFields n ((t.dropWhile (· = ' ')).dropWhile (· ≠ ' '))

def leadingNumber (t : Text) : Int :=
  match t.dropWhile (· = ' ') with
  | '-' :: rest => -(((number? (rest.takeWhile Char.isDigit)).getD 0 : Nat) : Int)
  | rest => ((number? (rest.takeWhile Char.isDigit)).getD 0 : Nat)

def isBeforeLine (o : Options) (a b : Text) : Bool :=
  let fold (t : Text) : Text := if o.has 'f' then t.map Char.toUpper else t
  let (k, l) := (fold (keyOf o a), fold (keyOf o b))
  let ordered :=
    if o.has 'n' && leadingNumber k ≠ leadingNumber l then leadingNumber k < leadingNumber l
    else if !o.has 'n' && k ≠ l then Text.isOrdered k l
    else Text.isOrdered a b
  if o.has 'r' then !ordered || a = b else ordered

def dropRepeats (same : Text → Text → Bool) : List Text → List Text
  | [] => []
  | t :: ts =>
      match dropRepeats same ts with
      | [] => [t]
      | t' :: ts => if same t t' then t :: ts else t :: t' :: ts

def bareLines (t : Text) : List Text := (linesOf t).map withoutBreak

def readSorted : List Text → Run (Option Text)
  | [] => return some []
  | t :: ts => do
      match ← readFile t with
      | .error cause => do
          let _ ← fail "sort" ("cannot read: " ++ t ++ ": " ++ cause.reason)
          return none
      | .ok content => return (← readSorted ts).map (content ++ ·)

def sort : List Text → Run Nat :=
  let table : OptionTable := {
    flags := "bcCdfghiMmnRrsuVz"
    valued := "kotST"
    names := [("reverse", 'r'), ("numeric-sort", 'n'), ("unique", 'u'), ("key", 'k')]
    failure := 2 }
  withOptions "sort" table fun o => do
    match ← readSorted (orInput o.operands) with
    | none => return 2
    | some t => do
        let sorted := (bareLines t).mergeSort (isBeforeLine o)
        let same (a b : Text) : Bool :=
          if o.has 'n' then leadingNumber (keyOf o a) = leadingNumber (keyOf o b)
          else if o.has 'f' then (keyOf o a).map Char.toUpper = (keyOf o b).map Char.toUpper
          else keyOf o a = keyOf o b
        let shown := if o.has 'u' then dropRepeats same sorted else sorted
        let t := shown.flatMap (· ++ ['\n'])
        match o.value? 'o' with
        | some file => do
            let _ ← Procedure.ask (.write ((← get).locate file) (toBytes t))
            return 0
        | none => emit t

def runsOf (same : Text → Text → Bool) : List Text → List (Text × Nat)
  | [] => []
  | t :: ts =>
      match runsOf same ts with
      | (t', n) :: runs => if same t t' then (t, n + 1) :: runs else (t, 1) :: (t', n) :: runs
      | [] => [(t, 1)]

def uniq : List Text → Run Nat :=
  withOptions "uniq" { flags := "cdDiuz", valued := "fsw", names := [("count", 'c')] } fun o => do
    let (t, status) ← readAll "uniq" (orInput (o.operands.take 1))
    let same (a b : Text) : Bool :=
      if o.has 'i' then a.map Char.toLower = b.map Char.toLower else a = b
    let shown := (runsOf same (bareLines t)).filter fun (_, n) =>
      (!o.has 'd' || 1 < n) && (!o.has 'u' || n = 1)
    let _ ← emit (shown.flatMap fun (line, n) =>
      (if o.has 'c' then alignRight 7 (Text.ofNat n) ++ [' '] else []) ++ line ++ ['\n'])
    return status

/-- Columns between two, counted from one; the last one may be open. -/
structure ColumnRange where
  first : Nat
  last : Option Nat

namespace ColumnRange

def covers (n : Nat) (r : ColumnRange) : Bool := r.first ≤ n && r.last.all (n ≤ ·)

def ofText? (t : Text) : Option ColumnRange :=
  match Text.pieces (· = '-') t with
  | [single] => (number? single).map fun n => ⟨n, some n⟩
  | [[], last] => (number? last).map fun n => ⟨1, some n⟩
  | [first, []] => (number? first).map fun n => ⟨n, none⟩
  | [first, last] => do return ⟨← number? first, some (← number? last)⟩
  | _ => none

def listOfText? (t : Text) : Option (List ColumnRange) :=
  (Text.pieces (fun c => c = ',' || c = ' ') t).mapM ofText?

end ColumnRange

/-- What is to be cut out of lines: fields between delimiters, or characters. -/
structure Cut where
  ranges : List ColumnRange
  ofFields : Bool
  delimiter : Char := '\t'
  glue : Text := ['\t']
  skipsUncut : Bool := false
  isInverted : Bool := false

namespace Cut

def select {α : Type} (cut : Cut) (columns : List α) : List α :=
  ((columns.zipIdx 1).filter fun (_, n) =>
    cut.ranges.any (·.covers n) != cut.isInverted).map (·.1)

def apply (cut : Cut) (line : Text) : Text :=
  if !cut.ofFields then cut.select line ++ ['\n']
  else if cut.delimiter ∈ line then
    Text.joinWith cut.glue (cut.select (Text.pieces (· = cut.delimiter) line)) ++ ['\n']
  else if cut.skipsUncut then []
  else line ++ ['\n']

def ofOptions (o : Options) : Except Text Cut :=
  let delimiter := (o.value? 'd').getD ['\t']
  match o.given.find? fun g => g.1 ∈ ['b', 'c', 'f'] with
  | none => .error "you must specify a list of bytes, characters, or fields"
  | some (unit, list) =>
      let ofFields := unit = 'f'
      match ColumnRange.listOfText? list, delimiter with
      | none, _ =>
          let what : Text := if ofFields then "field value" else "byte or character range"
          .error ("invalid " ++ what ++ " '" ++ list ++ "'")
      | some ranges, [delimiter] =>
          let what : Text := if ofFields then "fields" else "byte/character positions"
          if ranges.any (·.first = 0) then .error (what ++ " are numbered from 1")
          else .ok {
            ranges
            ofFields
            delimiter
            glue := (o.value? 'O').getD [delimiter]
            skipsUncut := o.has 's'
            isInverted := o.has 'C' }
      | some _, _ => .error "the delimiter must be a single character"

end Cut

def cut : List Text → Run Nat :=
  let table : OptionTable := {
    flags := "nszC"
    valued := "bcdfO"
    names := [("complement", 'C'), ("output-delimiter", 'O'), ("only-delimited", 's'),
      ("delimiter", 'd'), ("fields", 'f'), ("characters", 'c'), ("bytes", 'b')] }
  withOptions "cut" table fun o => do
    match Cut.ofOptions o with
    | .error message => misuse "cut" message
    | .ok cut =>
        forFiles "cut" (fun _ content =>
          emit ((linesOf content).flatMap fun line => cut.apply (withoutBreak line)))
          (orInput o.operands)

end ScriptWeave.Shell.Utility
