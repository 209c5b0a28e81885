import ScriptWeave.Path

namespace ScriptWeave.Reference

def isProvided (directories : List Path) (p : Path) : Bool :=
  directories.any fun directory => p.parent.normal = directory.normal

def distinctFrom (seen : List Path) : List Path → List Path
  | [] => []
  | p :: ps =>
      if p.normal ∈ seen then distinctFrom seen ps
      else p :: distinctFrom (p.normal :: seen) ps

def resolve (directories : List Path) (references : List Path) : List Path :=
  distinctFrom [] (references.filter fun p => p.isAbsolute && !isProvided directories p)

def skipped (references : List Path) : List Path := references.filter fun p => !p.isAbsolute

end ScriptWeave.Reference
