import ScriptWeave.FileTree

/-!
Paths without links. On the way along a path each link is followed and each double dot taken away,
whether or not the places are there. What has been walked is kept as it is spelled, from the root
or from the directory of the walk, and a link counts as met again only under the same spelling.
-/

namespace ScriptWeave

namespace Path

/-- One name up. A relative path that has nothing to take away goes on with double dots. -/
def up (p : Path) : Path :=
  match p.names.getLast? with
  | none => if p.isAbsolute then p else ⟨p.anchor, ["..".toList]⟩
  | some name => if name = "..".toList then ⟨p.anchor, p.names ++ [name]⟩ else p.parent

def seenFrom (directory : Place) (p : Path) : Path := (Path.join ⟨.root, directory⟩ p).normal

def start (p : Path) (here : Path) : Path := if p.isAbsolute then ⟨.root, []⟩ else here

end Path

namespace FileTree

def linkAt? (t : FileTree) (directory : Place) (p : Path) : Option Text :=
  match t.get? (p.seenFrom directory).names with
  | some (.link target) => if isTooLong p then none else some target
  | _ => none

/-- Follows every link along names. A link that leads back to itself is left as written, with the
names behind it, and seen from the link they may be an absolute path. `jump` follows one link. -/
def resolveNames (t : FileTree) (directory : Place)
    (jump : Path → Path → List Text → Except FileError Path) :
    Path → List Text → Except FileError Path
  | here, [] => .ok here
  | here, name :: names =>
      let next : Path := ⟨here.anchor, here.names ++ [name]⟩
      if isMark name then resolveNames t directory jump here names
      else if name = "..".toList then resolveNames t directory jump here.up names
      else if name.contains '\x00' then .error ⟨.nullCharacter, next⟩
      else
        match t.linkAt? directory next with
        | none => resolveNames t directory jump next names
        | some target =>
            match jump next ((Path.ofText target).start here) (Text.pieces (· = '/') target) with
            | .ok place => resolveNames t directory jump place names
            | .error ⟨cause, p⟩ =>
                .error ⟨cause, p.join (Path.ofText (Text.joinWith ['/'] names))⟩

def resolveWithin (t : FileTree) (directory : Place) :
    Nat → List Path → Path → List Text → Except FileError Path
  | 0, _ => resolveNames t directory fun link _ _ => .error ⟨.tooManyLinks, link⟩
  | budget + 1, active => resolveNames t directory fun link here names =>
      if link ∈ active then .error ⟨.tooManyLinks, link⟩
      else resolveWithin t directory budget (link :: active) here names

def resolutionBudget (t : FileTree) : Nat := (t.nodes.length + 1) * pathLimit

def confirm (t : FileTree) (p : Path) : Except FileError Path :=
  match t.locate true [] p with
  | .error .tooManyLinks => .error ⟨.tooManyLinks, p⟩
  | .error .nullCharacter => .error ⟨.nullCharacter, p⟩
  | _ => .ok p

/-- The absolute path without links that a path stands for; an error with that path if it goes
round in links. -/
def resolve (t : FileTree) (directory : Place) (p : Path) : Except FileError Path :=
  match resolveWithin t directory t.resolutionBudget [] (p.start ⟨.relative, []⟩) p.names with
  | .ok q | .error ⟨.tooManyLinks, q⟩ => t.confirm (q.seenFrom directory)
  | .error e => .error e

end FileTree

end ScriptWeave
