import ScriptWeave.Text.Basic

namespace ScriptWeave.Shell

structure Glyph where
  char : Char
  isQuoted : Bool
  deriving DecidableEq, Repr

inductive SetItem where
  | range (first last : Char)
  | kind (holds : Char → Bool)

def SetItem.holds (c : Char) : SetItem → Bool
  | .range first last => first ≤ c && c ≤ last
  | .kind holds => holds c

inductive PatternPart where
  | char (c : Char)
  | one
  | many
  | set (isInverted : Bool) (items : List SetItem)

abbrev Pattern := List PatternPart

namespace Pattern

def isPunctuation (c : Char) : Bool := '!' ≤ c && c ≤ '~' && !c.isAlphanum

def kinds : List (Text × (Char → Bool)) := [
  ("alnum", Char.isAlphanum), ("alpha", Char.isAlpha), ("blank", fun c => c = ' ' || c = '\t'),
  ("cntrl", fun c => c < ' ' || c = '\x7f'), ("digit", Char.isDigit),
  ("graph", fun c => '!' ≤ c && c ≤ '~'), ("lower", Char.isLower),
  ("print", fun c => ' ' ≤ c && c ≤ '~'), ("punct", isPunctuation),
  ("space", fun c => c = ' ' || ('\t' ≤ c && c ≤ '\r')), ("upper", Char.isUpper),
  ("xdigit", fun c => c.isDigit || ('a' ≤ c && c ≤ 'f') || ('A' ≤ c && c ≤ 'F'))]

def isOpen (c : Char) (g : Glyph) : Bool := g.char = c && !g.isQuoted

def readKind? (gs : List Glyph) : Option ((Char → Bool) × List Glyph) :=
  let chars := gs.map (·.char)
  (kinds.find? fun k => ([':'] ++ k.1 ++ [':', ']']).isPrefixOf chars).map fun k =>
    (k.2, gs.drop (k.1.length + 3))

def readItems? : Nat → Bool → List Glyph → Option (List SetItem × List Glyph)
  | 0, _, _ => none
  | _ + 1, _, [] => none
  | fuel + 1, isFirst, g :: gs =>
      if isOpen ']' g && !isFirst then some ([], gs)
      else
        match if isOpen '[' g then readKind? gs else none with
        | some (holds, rest) => (readItems? fuel false rest).map fun (is, r) => (.kind holds :: is, r)
        | none =>
            match gs with
            | dash :: last :: rest =>
                if isOpen '-' dash && !isOpen ']' last then
                  (readItems? fuel false rest).map fun (is, r) => (.range g.char last.char :: is, r)
                else (readItems? fuel false gs).map fun (is, r) => (.range g.char g.char :: is, r)
            | gs => (readItems? fuel false gs).map fun (is, r) => (.range g.char g.char :: is, r)

def readSet? (gs : List Glyph) : Option (PatternPart × List Glyph) :=
  let isInverted := match gs with
    | g :: _ => isOpen '!' g || isOpen '^' g
    | [] => false
  (readItems? (gs.length + 1) true (if isInverted then gs.drop 1 else gs)).map fun (is, rest) =>
    (.set isInverted is, rest)

def readEscapes : List Glyph → List Glyph
  | [] => []
  | g :: [] => [g]
  | g :: g' :: gs =>
      if isOpen '\\' g then ⟨g'.char, true⟩ :: readEscapes gs else g :: readEscapes (g' :: gs)

def readParts : Nat → List Glyph → Pattern
  | 0, _ => []
  | _ + 1, [] => []
  | fuel + 1, g :: gs =>
      if isOpen '*' g then .many :: readParts fuel gs
      else if isOpen '?' g then .one :: readParts fuel gs
      else if isOpen '[' g then
        match readSet? gs with
        | some (set, rest) => set :: readParts fuel rest
        | none => .char '[' :: readParts fuel gs
      else .char g.char :: readParts fuel gs

def ofGlyphs (gs : List Glyph) : Pattern := readParts (gs.length + 1) (readEscapes gs)

def isOpenIn (gs : List Glyph) : Bool := gs.any fun g => !g.isQuoted && g.char ∈ ['*', '?', '[']

def PatternPart.fitsChar (c : Char) : PatternPart → Bool
  | .char p => p = c
  | .one => true
  | .many => false
  | .set isInverted items => items.any (SetItem.holds c) != isInverted

def fits : Pattern → Text → Bool
  | [], t => t.isEmpty
  | .many :: ps, [] => fits ps []
  | .many :: ps, c :: t => fits ps (c :: t) || fits (.many :: ps) t
  | p :: ps, c :: t => PatternPart.fitsChar c p && fits ps t
  | _ :: _, [] => false
termination_by ps t => ps.length + t.length

def fitsFirst (p : Pattern) (t : Text) : Bool := p.fits (t.takeWhile (· ≠ '\x00'))

def cutFront (p : Pattern) (t : Text) : List Nat → Text
  | [] => t
  | n :: ns => if p.fitsFirst (t.take n) then t.drop n else cutFront p t ns

def cutBack (p : Pattern) (t : Text) : List Nat → Text
  | [] => t
  | n :: ns => if p.fitsFirst (t.drop n) then t.take n else cutBack p t ns

/-- A text without its shortest or longest part, at one of its ends, that fits. Who looks from the
front on does not look behind the first zero. -/
def trim (fromEnd longest : Bool) (p : Pattern) (t : Text) : Text :=
  let forwards := List.range ((t.takeWhile (· ≠ '\x00')).length + 1)
  let backwards := (List.range (t.length + 1)).reverse
  if fromEnd then p.cutBack t (if longest then forwards else backwards)
  else p.cutFront t (if longest then backwards else forwards)

end Pattern

end ScriptWeave.Shell
