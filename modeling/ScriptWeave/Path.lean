import ScriptWeave.Text.Basic

/-!
Paths as written: an anchor and the names behind it. Repeated slashes and single dots vanish when
a path is read; a double dot stays, because what it means depends on links. `normal` removes
double dots by the names alone and serves only to compare paths.
-/

namespace ScriptWeave

inductive Anchor where
  | relative
  | root
  | doubleRoot
  deriving DecidableEq, Repr

structure Path where
  anchor : Anchor
  names : List Text
  deriving DecidableEq, Repr

namespace Path

def anchorOf : Text → Anchor
  | '/' :: '/' :: '/' :: _ => .root
  | '/' :: '/' :: _ => .doubleRoot
  | '/' :: _ => .root
  | _ => .relative

def namesOf (t : Text) : List Text :=
  (Text.pieces (· = '/') t).filter fun name => name != [] && name != ['.']

def ofText (t : Text) : Path := ⟨anchorOf t, namesOf t⟩

instance : Coe String Path := ⟨fun s => ofText s.toList⟩

/-- The path with what an operating system reads at its end: a slash or a single dot behind the
last name says that the path leads to a directory, and is kept as one more name. -/
def ofWritten (t : Text) : Path :=
  let p := ofText t
  match (Text.pieces (· = '/') t).getLast? with
  | some [] => ⟨p.anchor, p.names ++ [[]]⟩
  | some ['.'] => ⟨p.anchor, p.names ++ [['.']]⟩
  | _ => p

def anchorText : Anchor → Text
  | .relative => []
  | .root => "/"
  | .doubleRoot => "//"

def toText (p : Path) : Text :=
  match p.anchor, p.names with
  | .relative, [] => "."
  | anchor, names => anchorText anchor ++ Text.joinWith ['/'] names

def isAbsolute (p : Path) : Bool := p.anchor != .relative

/-- The second path as seen from the first; an absolute one is seen the same from everywhere. -/
def join (base p : Path) : Path :=
  if p.isAbsolute then p else ⟨base.anchor, base.names ++ p.names⟩

def child (p : Path) (name : Text) : Path := p.join (ofText name)

def parent (p : Path) : Path := ⟨p.anchor, p.names.dropLast⟩

def name (p : Path) : Text := p.names.getLast?.getD []

/-- A name cut before its last dot. A dot at either end of the name cuts nothing. -/
def cutExtension (name : Text) : Text × Text :=
  let extension := (name.reverse.takeWhile (· ≠ '.')).reverse
  match (name.reverse.dropWhile (· ≠ '.')).reverse.dropLast with
  | [] => (name, [])
  | stem => if extension = [] then (name, []) else (stem, '.' :: extension)

def stem (p : Path) : Text := (cutExtension p.name).1

/-- The sibling of that name. A path without a name has no siblings, and gets the name. -/
def withName (p : Path) (name : Text) : Path := ⟨p.anchor, p.names.dropLast ++ [name]⟩

def withExtension (p : Path) (extension : Text) : Path := p.withName (p.stem ++ extension)

/-- The names with each double dot taking away the name in front of it. What would lead above the
root is dropped, and above the start of a relative path it stays. -/
def collapse (absolute : Bool) (taken : List Text) : List Text → List Text
  | [] => taken.reverse
  | name :: names =>
      if name = "..".toList then
        match taken with
        | [] => collapse absolute (if absolute then [] else [name]) names
        | top :: below =>
            if top = "..".toList then collapse absolute (name :: taken) names
            else collapse absolute below names
      else collapse absolute (name :: taken) names

def normal (p : Path) : Path := ⟨p.anchor, collapse p.isAbsolute [] p.names⟩

end Path

end ScriptWeave
