import Mathlib.Logic.Relation
import ScriptWeave.Proofs.Header.Pattern

namespace ScriptWeave.Header

open Text

def oneOf (cs : Text) (c : Char) : Bool := cs.contains c

def noneOf (cs : Text) (c : Char) : Bool := !cs.contains c

namespace Pattern

def space : Pattern := oneOrMore (oneOf " \t\x0c\r\n")

def comment : Pattern :=
  either (literal "//" ++ many (noneOf "\r\n"))
    (literal "/*" ++ few (fun _ => true) ++ literal "*/")

def preprocessor : Pattern := literal "#" ++ many (noneOf "\r\n")

def trivia : List Pattern := [space, comment, preprocessor]

end Pattern

def Trivium (t rest : Text) : Prop := ∃ r ∈ Pattern.trivia, r.after? t = some rest

def Trivia : Text → Text → Prop := Relation.ReflTransGen Trivium

inductive Terminal where
  | usingWord
  | globalWord
  | externWord
  | staticWord
  | aliasWord
  | name
  | symbol (s : Symbol)
  deriving DecidableEq

namespace Pattern

def target : Pattern :=
  oneOrMore (fun c => isWordChar c || isBlank c || oneOf ".:@<>,?[]" c) ++ literal ";"

def definition : Pattern :=
  optional (literal "@") ++ oneOrMore isWordChar ++ many isBlank ++ literal "=" ++ many isBlank

def usingWord : Pattern :=
  literal "using" ++ ahead (oneOrMore isBlank ++ optional (literal "static" ++ oneOrMore isBlank) ++
    optional definition ++ target)

def globalWord : Pattern :=
  literal "global" ++ ahead (oneOrMore isBlank ++ literal "using" ++ wordEnd)

def externWord : Pattern :=
  literal "extern" ++ ahead (oneOrMore isBlank ++ literal "alias" ++ wordEnd)

def name : Pattern :=
  optional (literal "@") ++ one (fun c => isWordChar c && !isDecimal c) ++ many isWordChar

def openings : List Pattern := [usingWord, globalWord, externWord]

end Pattern

/-- The text begins with a token of the kind, and behind it comes the other one. The words `static`
and `alias` are told from names by their spelling. -/
def Terminal.Matches (t rest : Text) : Terminal → Prop
  | usingWord => Pattern.usingWord.after? t = some rest
  | globalWord => Pattern.globalWord.after? t = some rest
  | externWord => Pattern.externWord.after? t = some rest
  | staticWord => Pattern.name.after? t = some rest ∧ t = "static".toList ++ rest
  | aliasWord => Pattern.name.after? t = some rest ∧ t = "alias".toList ++ rest
  | name => Pattern.name.after? t = some rest
  | symbol s => (Pattern.literal s.toText).after? t = some rest

inductive Rule where
  | externAlias
  | usingDirective
  | aliasPart
  | qualifiedName
  | qualifier
  | namePart
  | typeArgs
  | typeArg
  | rankSpec

inductive Form where
  | token (k : Terminal)
  | rule (r : Rule)
  | optional (f : Form)
  | many (f : Form)
  | sequence (f g : Form)

namespace Form

instance : Append Form := ⟨.sequence⟩

def mark (s : Symbol) : Form := token (.symbol s)

end Form

open Form in
def Rule.production : Rule → Form
  | externAlias => token .externWord ++ token .aliasWord ++ token .name ++ mark .semicolon
  | usingDirective =>
      optional (token .globalWord) ++ token .usingWord ++ optional (token .staticWord) ++
        optional (rule .aliasPart) ++ rule .qualifiedName ++ mark .semicolon
  | aliasPart => token .name ++ mark .equals
  | qualifiedName =>
      optional (rule .qualifier) ++ rule .namePart ++ many (mark .dot ++ rule .namePart)
  | qualifier => token .name ++ mark .doubleColon
  | namePart => token .name ++ optional (rule .typeArgs)
  | typeArgs =>
      mark .less ++ rule .typeArg ++ many (mark .comma ++ rule .typeArg) ++ mark .greater
  | typeArg => rule .qualifiedName ++ optional (mark .question) ++ many (rule .rankSpec)
  | rankSpec => mark .openBracket ++ many (mark .comma) ++ mark .closeBracket

inductive Derives : Form → List Terminal → Prop
  | token (k : Terminal) : Derives (.token k) [k]
  | rule {r : Rule} {ks : List Terminal} (h : Derives r.production ks) : Derives (.rule r) ks
  | absent {f : Form} : Derives (.optional f) []
  | present {f : Form} {ks : List Terminal} (h : Derives f ks) : Derives (.optional f) ks
  | none {f : Form} : Derives (.many f) []
  | more {f : Form} {ks ks' : List Terminal} (h : Derives f ks) (h' : Derives (.many f) ks') :
      Derives (.many f) (ks ++ ks')
  | sequence {f g : Form} {ks ks' : List Terminal} (h : Derives f ks) (h' : Derives g ks') :
      Derives (f ++ g) (ks ++ ks')

/-- The text behind the terminal consists of the terminals, with trivia in front of each, and of the
rest. Right behind `using`, the word `static` is no name. -/
inductive Lexes : Terminal → Text → List Terminal → Text → Prop
  | done (previous : Terminal) (t : Text) : Lexes previous t [] t
  | more {previous k : Terminal} {t here behind rest : Text} {ks : List Terminal}
      (trivia : Trivia t here) (matched : k.Matches here behind)
      (static : previous = .usingWord → k = .name → here ≠ "static".toList ++ behind)
      (more : Lexes k behind ks rest) : Lexes previous t (k :: ks) rest

def IsDeclaration (t rest : Text) : Prop :=
  ∃ k behind ks, (k = .usingWord ∨ k = .globalWord ∨ k = .externWord) ∧ k.Matches t behind ∧
    Lexes k behind ks rest ∧
    (Derives (.rule .usingDirective) (k :: ks) ∨ Derives (.rule .externAlias) (k :: ks))

def IsBody (t : Text) : Prop :=
  t = [] ∨ ∀ r ∈ Pattern.trivia ++ Pattern.openings, r.after? t = none

/-- The text consists of the declarations, with trivia around them, and of the body. -/
inductive Factors : Text → List Text → Text → Prop
  | body {t rest : Text} (trivia : Trivia t rest) (body : IsBody rest) : Factors t [] rest
  | declaration {t d after rest : Text} {ds : List Text} (trivia : Trivia t (d ++ after))
      (read : IsDeclaration (d ++ after) after) (more : Factors after ds rest) :
      Factors t (d :: ds) rest

end ScriptWeave.Header
