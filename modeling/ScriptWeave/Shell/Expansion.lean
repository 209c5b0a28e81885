import ScriptWeave.Shell.Arithmetic
import ScriptWeave.Shell.Pattern
import ScriptWeave.Shell.Session

namespace ScriptWeave.Shell

inductive Item where
  | glyph (g : Glyph) (isOpen : Bool)
  | mark
  | cut
  deriving DecidableEq, Repr

namespace Item

def ofValue (isQuoted : Bool) (t : Text) : List Item :=
  t.map fun c => .glyph ⟨c, isQuoted⟩ !isQuoted

def ofValues (isQuoted : Bool) : List Text → List Item
  | [] => []
  | [t] => (if isQuoted then [.mark] else []) ++ ofValue isQuoted t
  | t :: t' :: ts =>
      (if isQuoted then [.mark] else []) ++ ofValue isQuoted t ++ .cut :: ofValues isQuoted (t' :: ts)

def glyphs (items : List Item) : List Glyph := items.filterMap fun
  | .glyph g _ => some g
  | _ => none

def text (items : List Item) : Text := (glyphs items).map (·.char)

end Item

/-- What stands in front of the place where fields are being cut. -/
inductive Edge where
  | inside (growing : List Glyph)
  | blank
  | fresh

def isBlankSeparator (c : Char) : Bool := c = ' ' || c = '\t' || c = '\n'

def cutFields (separators : Text) : Edge → List Item → List (List Glyph)
  | .inside growing, [] => [growing.reverse]
  | _, [] => []
  | .inside growing, .glyph g isOpen :: items =>
      if isOpen && separators.contains g.char then
        growing.reverse ::
          cutFields separators (if isBlankSeparator g.char then .blank else .fresh) items
      else cutFields separators (.inside (g :: growing)) items
  | .inside growing, .mark :: items => cutFields separators (.inside growing) items
  | .inside growing, .cut :: items => growing.reverse :: cutFields separators .fresh items
  | .blank, .glyph g isOpen :: items =>
      if isOpen && separators.contains g.char then
        cutFields separators (if isBlankSeparator g.char then .blank else .fresh) items
      else cutFields separators (.inside [g]) items
  | .fresh, .glyph g isOpen :: items =>
      if isOpen && separators.contains g.char then
        if isBlankSeparator g.char then cutFields separators .fresh items
        else [] :: cutFields separators .fresh items
      else cutFields separators (.inside [g]) items
  | _, .mark :: items => cutFields separators (.inside []) items
  | _, .cut :: items => cutFields separators .fresh items

def fieldsOf (separators : Text) (items : List Item) : List (List Glyph) :=
  cutFields separators .fresh items

def slashPieces (gs : List Glyph) : List (List Glyph) :=
  match gs with
  | [] => [[]]
  | g :: gs =>
      if g.char = '/' then [] :: slashPieces gs
      else
        match slashPieces gs with
        | [] => [[g]]
        | piece :: pieces => (g :: piece) :: pieces

def textOf (gs : List Glyph) : Text := gs.map (·.char)

def namesThatFit (s : Session) (directory : Text) (piece : List Glyph) :
    Procedure (List Text) := do
  let p := if directory = [] then s.directory else s.locate directory
  match ← Procedure.ask (.list p) with
  | .error _ => return []
  | .ok names =>
      let pattern := Pattern.ofGlyphs piece
      let isHidden := piece.head?.any (·.char = '.')
      let candidates := if isHidden then [['.'], ['.', '.']] ++ names.map inward else names.map inward
      return candidates.filter fun name =>
        pattern.fits name && (isHidden || name.head? != some '.')

def hasEntry (s : Session) (t : Text) : Procedure Bool := do
  if t = [] then return false
  else
    match ← Procedure.ask (.isPresent (s.locate t)) with
    | .ok true => return true
    | _ => Procedure.ask (.isLink (s.locate t))

def pathsThatFit (s : Session) : List (List Glyph) → Text → Procedure (List Text)
  | [], start => do return if ← hasEntry s start then [start] else []
  | [piece], start => do
      if Pattern.isOpenIn piece then
        return (← namesThatFit s start piece).map (start ++ ·)
      else
        let t := start ++ textOf piece
        return if ← hasEntry s t then [t] else []
  | piece :: pieces, start => do
      if Pattern.isOpenIn piece then
        let names ← namesThatFit s start piece
        let found ← names.mapM fun name => do
          if ← Procedure.ask (.isDirectory (s.locate (start ++ name))) then
            pathsThatFit s pieces (start ++ name ++ ['/'])
          else return []
        return found.flatten
      else pathsThatFit s pieces (start ++ textOf piece ++ ['/'])

def expandFilename (gs : List Glyph) : Run (List Text) := do
  let s ← get
  if Pattern.isOpenIn gs ∧ s.has 'f' = false then
    match ← pathsThatFit s (slashPieces gs) [] with
    | [] => return [textOf gs]
    | found => return found.mergeSort Text.isOrdered
  else return [textOf gs]

namespace Session

def joinedArguments (s : Session) : Text :=
  Text.joinWith (s.separators.take 1) s.arguments

def parameter? (s : Session) (name : Text) : Option Text :=
  match name with
  | ['@'] | ['*'] => some s.joinedArguments
  | ['#'] => some (Text.ofNat s.arguments.length)
  | ['?'] => some (Text.ofNat s.status)
  | ['-'] => some s.options
  | ['$'] => some processNumber
  | ['!'] => s.lastBackground.map Text.ofNat
  | c :: _ =>
      if c.isDigit then
        match Arithmetic.valueOf 10 name with
        | 0 => some s.name
        | n + 1 => s.arguments[n]?
      else s.setting? name
  | [] => none

end Session

def requireSet (name : Text) : Run Unit := do
  if (← get).has 'u' then abort (name ++ ": parameter not set")

def valueOrEmpty (name : Text) : Run Text := do
  match (← get).parameter? name with
  | some t => return t
  | none => do
      requireSet name
      return []

def isList (joins : Bool) (name : Text) (isQuoted : Bool) : Bool :=
  !joins && (name = ['@'] || (name = ['*'] && !isQuoted))

def expandValue (joins : Bool) (name : Text) (isQuoted : Bool) : Run (List Item) := do
  if isList joins name isQuoted then return Item.ofValues isQuoted (← get).arguments
  else return Item.ofValue isQuoted (← valueOrEmpty name)

def wholeValue (joins : Bool) (name : Text) (isQuoted : Bool) : Run Text := do
  if isList joins name isQuoted then return Text.joinWith ['\x00'] (← get).arguments
  else valueOrEmpty name

def itemsOfWhole (joins : Bool) (name : Text) (isQuoted : Bool) (value : Text) : List Item :=
  if isList joins name isQuoted then
    if value = [] then [] else Item.ofValues isQuoted (Text.pieces (· = '\x00') value)
  else Item.ofValue isQuoted value

def assignParameter (name value : Text) : Run Unit := do
  match name with
  | c :: _ =>
      if c.isAlpha ∨ c = '_' then assign name value else abort (name ++ ": bad variable name")
  | [] => abort "Bad substitution"

def complaintAbout (name message : Text) (coversEmpty : Bool) : Text :=
  if message != [] then name ++ ": " ++ message
  else if coversEmpty then name ++ ": parameter not set or null"
  else name ++ ": parameter not set"

/-- Where a tilde may stand for a home directory: at the front of a word, or as in values, behind
every colon too. -/
inductive TildePlace where
  | nowhere
  | front
  | values
  deriving DecidableEq, Repr

def nameIn? (endsName : Char → Bool) : List Part → Option Text
  | .char c false :: parts => if endsName c then some [] else (nameIn? endsName parts).map (c :: ·)
  | [] => some []
  | _ => none

def Session.home? (s : Session) (user : Text) : Option Text :=
  if user = [] then s.setting? "HOME" else (s.homes.find? fun h => h.1 = user).map (·.2)

def homeAt? (s : Session) (place : TildePlace) (isFront : Bool) (part : Part) (parts : List Part) :
    Option (Text × Nat) :=
  match part, isFront with
  | .char '~' false, true => do
      let user ← nameIn? (fun c => c = '/' || (c = ':' && place = .values)) parts
      return (← s.home? user, user.length)
  | _, _ => none

def isFrontBehind (place : TildePlace) : Part → Bool
  | .char ':' false => place = .values
  | _ => false

mutual

/-- The items of parts. `substitute` runs a command and returns its output, `joins` says that no
fields are made, and `isOpen` that the characters of the parts themselves may be cut at. The first
parts may belong to a tilde in front of them. -/
def expandParts (substitute : Option Command → Run Text) (joins isOpen : Bool)
    (place : TildePlace) (isFront : Bool) : Nat → List Part → Run (List Item)
  | _, [] => return []
  | skipped + 1, _ :: parts =>
      expandParts substitute joins isOpen place isFront skipped parts
  | 0, part :: parts => do
      match homeAt? (← get) place isFront part parts with
      | some (home, taken) => do
          let rest ← expandParts substitute joins isOpen place false taken parts
          return Item.ofValue true home ++ rest
      | none => do
          let items ← expandPart substitute joins isOpen part
          let rest ← expandParts substitute joins isOpen place (isFrontBehind place part) 0 parts
          return items ++ rest

def expandPart (substitute : Option Command → Run Text) (joins isOpen : Bool) :
    Part → Run (List Item)
  | .char c isQuoted => return [.glyph ⟨c, isQuoted⟩ (isOpen && !isQuoted)]
  | .mark => return [.mark]
  | .parameter name use isQuoted => expandUse substitute joins name isQuoted use
  | .command body isQuoted => return Item.ofValue isQuoted (← substitute body)
  | .arithmetic expression isQuoted => do
      let t := Item.text (← expandParts substitute true false .nowhere false 0 expression)
      return Item.ofValue isQuoted (← Arithmetic.evaluate t)

def expandUse (substitute : Option Command → Run Text) (joins : Bool) (name : Text)
    (isQuoted : Bool) : Use → Run (List Item)
  | .value => expandValue joins name isQuoted
  | .length => return Item.ofValue isQuoted (Text.ofNat (← valueOrEmpty name).length)
  | .fallback kind coversEmpty word => do
      let value := (← get).parameter? name
      let isMissing := value.isNone || (coversEmpty && value = some [])
      match kind, isMissing with
      | .alternative, false => expandParts substitute joins true .front true 0 word
      | .alternative, true => return []
      | _, false => expandValue joins name isQuoted
      | .word, true => expandParts substitute joins true .front true 0 word
      | .assigned, true => do
          let t := Item.text (← expandParts substitute true false .front true 0 word)
          assignParameter name t
          return Item.ofValue isQuoted t
      | .complaint, true => do
          let t := Item.text (← expandParts substitute true false .front true 0 word)
          abort (complaintAbout name t coversEmpty)
  | .trim fromEnd longest pattern => do
      let value ← wholeValue joins name isQuoted
      if ((← get).parameter? name).isNone then return Item.ofValue isQuoted []
      else
        let items ← expandParts substitute true false .front true 0 pattern
        return itemsOfWhole joins name isQuoted
          ((Pattern.ofGlyphs (Item.glyphs items)).trim fromEnd longest value)
  | .malformed => abort "Bad substitution"

end

variable (substitute : Option Command → Run Text)

def expandText (w : Word) : Run Text := do
  return Item.text (← expandParts substitute true false .front true 0 w)

def expandAssigned (value : Word) : Run Text := do
  return Item.text (← expandParts substitute true false .values true 0 value)

def expandDocument (body : Word) : Run Text := do
  return Item.text (← expandParts substitute true false .nowhere false 0 body)

def expandPattern (w : Word) : Run Pattern := do
  return Pattern.ofGlyphs (Item.glyphs (← expandParts substitute true false .front true 0 w))

def expandFields (w : Word) : Run (List (List Glyph)) := do
  let items ← expandParts substitute false false .front true 0 w
  return fieldsOf (← get).separators items

inductive Redirect where
  | file (descriptor : Nat) (mode : OpenMode) (name : Text)
  | duplicate (descriptor : Nat) (source : Option Nat)
  | document (descriptor number : Nat)

namespace Redirect

def descriptor : Redirect → Nat
  | .file d _ _ | .duplicate d _ | .document d _ => d

def sourceOf? : Text → Option (Option Nat)
  | ['-'] => some none
  | [c] => if c.isDigit then some (some (c.toNat - '0'.toNat)) else none
  | _ => none

def ofRedirection (substitute : Option Command → Run Text) : Redirection → Run Redirect
  | .file d mode target => return .file d mode (← expandText substitute target)
  | .duplicate d source => do
      match sourceOf? (← expandText substitute source) with
      | some source => return .duplicate d source
      | none => do
          modify fun s => { s with line := s.readLine }
          abort "Syntax error: Bad fd number"
  | .document d number => return .document d number

def complaint (mode : OpenMode) (cause : FileCause) (name : Text) : Text :=
  let verb : Text := if mode = .read then "open" else "create"
  let reason : Text :=
    if cause = .missing ∨ cause = .notDirectory then
      if mode = .read then "No such file" else "Directory nonexistent"
    else cause.reason
  "cannot " ++ verb ++ " " ++ name ++ ": " ++ reason

def deviceOf? (name : Text) : Option Nat :=
  if name = "/dev/stdin".toList then some 0
  else if name = "/dev/stdout".toList then some 1
  else if name = "/dev/stderr".toList then some 2
  else
    match Text.afterPrefix? "/dev/fd/" name with
    | some [c] => if c.isDigit then some (c.toNat - '0'.toNat) else none
    | _ => none

def isEndless (p : Path) : Bool := p.toText = "/dev/null".toList

def isKept (s : Session) (mode : OpenMode) (p : Path) : Procedure Bool := do
  if mode = .write ∧ s.has 'C' then
    match ← Procedure.ask (.isPresent p) with
    | .ok isPresent => return isPresent && !isEndless p
    | .error _ => return false
  else return false

def openFile (s : Session) (mode : OpenMode) (name : Text) :
    Procedure (Except FileCause Channel) := do
  let p := s.locate name
  if name = [] then return .error .missing
  else if ← isKept s mode p then return .error .exists
  else
    match mode with
    | .read => do
        if ← Procedure.ask (.isDirectory p) then return .ok .directory
        else
          match ← Procedure.ask (.read p) with
          | .ok _ => return .ok (.file p 0 false)
          | .error e => return .error e.cause
    | .write | .overwrite => do
        match ← Procedure.ask (.write p []) with
        | .ok () => return .ok (.file p 0 (isEndless p))
        | .error e => return .error e.cause
    | .append | .readWrite => do
        match ← Procedure.ask (.append p []) with
        | .ok () => return .ok (.file p 0 (mode = .append || isEndless p))
        | .error e => return .error e.cause

def link (descriptor source : Nat) : Run Bool := do
  let s ← get
  match s.channel? source with
  | some (number, _) => do
      set (s.connect descriptor (some number))
      return true
  | none => do
      complain (Text.ofNat source ++ ": Bad file descriptor")
      return false

def attach (descriptor : Nat) (channel : Channel) : Run Unit := modify fun s =>
  let (s, number) := s.addChannel channel
  s.connect descriptor (some number)

def apply (substitute : Option Command → Run Text) : Redirect → Run Bool
  | .duplicate d none => do
      modify (·.connect d none)
      return true
  | .duplicate d (some source) => link d source
  | .document d number => do
      let body := ((← get).documents.find? fun e => e.1 = number).map (·.2)
      attach d (.pipe [] (← expandDocument substitute (body.getD [])))
      return true
  | .file d mode name =>
      match deviceOf? name with
      | some source => link d source
      | none => do
          match ← openFile (← get) mode name with
          | .ok channel => do
              attach d channel
              return true
          | .error cause => do
              complain (complaint mode cause name)
              return false

def applyAll (substitute : Option Command → Run Text) : List Redirect → Run Bool
  | [] => return true
  | r :: rs => do
      if ← apply substitute r then applyAll substitute rs else return false

end Redirect

def catchFailure (run : Run Bool) : Run Bool := do
  match ← ExceptT.lift run.run with
  | .ok b => return b
  | .error .failed => return false
  | .error stop => throw stop

def Session.restoreDescriptors (before after : Session) (descriptors : List Nat) : Session :=
  let restored := descriptors.foldl (fun s d =>
    s.connect d ((before.descriptors.find? fun e => e.1 = d).map (·.2))) after
  { restored with channels := restored.channels.filter fun c =>
      c.1 < before.nextNumber || restored.descriptors.any fun d => d.2 = c.1 }

def afterwards {α : Type} (run : Run α) (change : Session → Session) : Run α := do
  let result ← ExceptT.lift run.run
  modify change
  match result with
  | .ok a => return a
  | .error stop => throw stop

/-- Runs with redirections in force. If one cannot be put into force, nothing runs and the status is
that of a complaint; says whether it came to the run. -/
def withRedirects (substitute : Option Command → Run Text) (rs : List Redirect) (run : Run Unit) :
    Run Bool := do
  if rs.isEmpty then
    run
    return true
  else
    let before ← get
    afterwards (do
      if ← catchFailure (Redirect.applyAll substitute rs) then
        run
        return true
      else
        setStatus 2
        return false) fun after => before.restoreDescriptors after (rs.map Redirect.descriptor)

end ScriptWeave.Shell
