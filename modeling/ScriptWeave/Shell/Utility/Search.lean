import ScriptWeave.Shell.Format
import ScriptWeave.Shell.Pattern
import ScriptWeave.Shell.Regular
import ScriptWeave.Shell.Utility.Basic

namespace ScriptWeave.Shell.Utility

structure Quest where
  options : Options
  expressions : List Text
  files : List Text

namespace Quest

def has (q : Quest) (letter : Char) : Bool := q.options.has letter

def caseless (q : Quest) : Bool := q.has 'i' || q.has 'y'

def optionTable : OptionTable := {
  flags := "cviynqlLoEFGxwshHaUz"
  valued := "em"
  names := [("count", 'c'), ("invert-match", 'v'), ("ignore-case", 'i'), ("line-number", 'n'),
    ("quiet", 'q'), ("silent", 'q'), ("only-matching", 'o'), ("extended-regexp", 'E'),
    ("fixed-strings", 'F'), ("line-regexp", 'x'), ("word-regexp", 'w'), ("no-messages", 's'),
    ("regexp", 'e'), ("max-count", 'm')]
  failure := 2 }

def ofOptions? (o : Options) : Option Quest :=
  let given := (o.given.filter fun g => g.1 = 'e').map (·.2)
  match given, o.operands with
  | [], [] => none
  | [], t :: files => some { options := o, expressions := [t], files }
  | given, files => some { options := o, expressions := given, files }

def expression (q : Quest) : Except Regular.Fault Regular := do
  let alternatives ← (q.expressions.flatMap (Text.pieces (· = '\n'))).mapM fun t =>
    if q.has 'F' then .ok (Regular.ofText t) else Regular.read (q.has 'E') t
  let r := match alternatives with
    | [] => .empty
    | r :: rs => rs.foldl .either r
  let fenced (left right : Option Char → Option Char → Bool) : Regular :=
    .inOrder (.place left) (.inOrder r (.place right))
  if q.has 'x' then return fenced (fun a _ => a.isNone) (fun _ b => b.isNone)
  else if q.has 'w' then
    return fenced (fun a _ => !a.any Regular.isWordChar) (fun _ b => !b.any Regular.isWordChar)
  else return r

def linesOf (q : Quest) (r : Regular) (content : Text) : List (Nat × Text) :=
  let lines := (Utility.linesOf content).map fun line => line.filter (· ≠ '\n')
  let found := ((lines.zipIdx 1).map fun (line, n) => (n, line)).filter fun (_, line) =>
    r.isIn q.caseless line != q.has 'v'
  match (q.options.value? 'm').bind number? with
  | some n => found.take n
  | none => found

def partsOf (q : Quest) (r : Regular) (line : Text) : List Text :=
  if q.has 'v' then []
  else
    ((r.findAll q.caseless (2 * line.length + 2) false [] { rest := line }).1.map
      fun (_, start, stop) => start.upTo stop).filter (· ≠ [])

def report (q : Quest) (title : Text) (r : Regular) (found : List (Nat × Text)) : Text :=
  let showsTitle := q.has 'H' || (1 < q.files.length && !q.has 'h')
  let lead : Text := if showsTitle then title ++ [':'] else []
  if q.has 'q' then []
  else if q.has 'l' then if found = [] then [] else title ++ ['\n']
  else if q.has 'L' then if found = [] then title ++ ['\n'] else []
  else if q.has 'c' then lead ++ Text.ofNat found.length ++ ['\n']
  else
    found.flatMap fun (n, line) =>
      let lead := lead ++ if q.has 'n' then Text.ofNat n ++ [':'] else []
      (if q.has 'o' then q.partsOf r line else [line]).flatMap (lead ++ · ++ ['\n'])

def lookThrough (q : Quest) (r : Regular) : List Text → Run (Bool × Bool)
  | [] => return (false, false)
  | file :: files => do
      let (found, failed) ← match ← readFile file with
        | .ok content => do
            let found := q.linesOf r content
            let title : Text := if file = ['-'] then "(standard input)" else file
            let _ ← emit (q.report title r found)
            pure (found != [], false)
        | .error cause => do
            if !q.has 's' then let _ ← fail "grep" (file ++ ": " ++ cause.reason)
            pure (false, true)
      let (found', failed') ← lookThrough q r files
      return (found || found', failed || failed')

end Quest

def searchLines (letters : Text) (arguments : List Text) : Run Nat := do
  match Options.ofArguments Quest.optionTable arguments with
  | .error fault => do
      let _ ← fail "grep" fault.message
      showUsage
  | .ok o =>
      match Quest.ofOptions? (letters.foldr (Options.withOption · []) o) with
      | none => showUsage
      | some q =>
          match q.expression with
          | .error fault => do
              let _ ← fail "grep" fault.message
              return 2
          | .ok r => do
              let (found, failed) ← q.lookThrough r (orInput q.files)
              if failed && !(q.has 'q' && found) then return 2
              else return if found then 0 else 1
where
  showUsage : Run Nat := do
    write 2 ("Usage: grep [OPTION]... PATTERNS [FILE]...\n" ++
      "Try 'grep --help' for more information.\n")
    return 2

def grep : List Text → Run Nat := searchLines []

def rangeOf (first last : Char) : Text :=
  (List.range (last.toNat + 1 - first.toNat)).map fun i => Char.ofNat (first.toNat + i)

def bytesThat (holds : Char → Bool) : Text := ((List.range 256).map Char.ofNat).filter holds

def charactersOf : Nat → Text → Text
  | 0, _ => []
  | _ + 1, [] => []
  | fuel + 1, '[' :: ':' :: rest =>
      let name := rest.takeWhile (· ≠ ':')
      match Pattern.kinds.find? fun k => k.1 = name with
      | some (_, holds) => bytesThat holds ++ charactersOf fuel (rest.drop (name.length + 2))
      | none => '[' :: charactersOf fuel (':' :: rest)
  | fuel + 1, '\\' :: rest =>
      let (c, rest) := readEscape rest
      c :: charactersOf fuel rest
  | fuel + 1, first :: '-' :: last :: rest => rangeOf first last ++ charactersOf fuel rest
  | fuel + 1, c :: rest => c :: charactersOf fuel rest

def dropSqueezed (set : Text) : Text → Text
  | [] => []
  | [c] => [c]
  | c :: d :: t =>
      if c = d && c ∈ set then dropSqueezed set (d :: t) else c :: dropSqueezed set (d :: t)

def replaceChar (source target : Text) (c : Char) : Char :=
  match source.reverse.idxOf? c with
  | none => c
  | some fromEnd =>
      match target[source.length - 1 - fromEnd]? with
      | some d => d
      | none => target.getLast?.getD c

def translated (o : Options) (first : Text) (second : Option Text) (t : Text) : Text :=
  let t :=
    if o.has 'd' then t.filter (· ∉ first)
    else
      match second with
      | some target => t.map (replaceChar first target)
      | none => t
  if o.has 's' then dropSqueezed (second.getD first) t else t

def setCounts (o : Options) : Nat × Nat :=
  match o.has 'd', o.has 's' with
  | true, true => (2, 2)
  | true, false => (1, 1)
  | false, true => (1, 2)
  | false, false => (2, 2)

def tr : List Text → Run Nat :=
  let table : OptionTable := {
    flags := "cCdst"
    names := [("delete", 'd'), ("squeeze-repeats", 's'), ("complement", 'c')] }
  withOptions "tr" table fun o => do
    let (least, most) := setCounts o
    let setOf (t : Text) : Text := charactersOf (t.length + 1) t
    match o.operands with
    | [] => missingOperand "tr"
    | one :: more =>
        if more.length + 1 < least then
          let reason : Text :=
            if o.has 'd' then "Two strings must be given when both deleting and squeezing repeats."
            else "Two strings must be given when translating."
          misuse "tr" ("missing operand after '" ++ one ++ "'\n" ++ reason)
        else
          match o.operands.drop most with
          | extra :: _ => extraOperand "tr" extra
          | [] => do
              let first := setOf one
              let first := if o.hasAny ['c', 'C'] then bytesThat (· ∉ first) else first
              let t := (← readInput).toOption.getD []
              emit (translated o first ((more.head?).map setOf) t)

end ScriptWeave.Shell.Utility
