import ScriptWeave.Procedure

namespace ScriptWeave.Directories

def accept (presentIsFine : Bool) (p : Path) (made : Attempt FileError Unit) :
    Attempt FileError Unit := do
  match ← made.outcome with
  | .ok () => return ()
  | .error e => if presentIsFine && (← Procedure.ask (.isDirectory p)) then return () else throw e

/-- Makes a directory whose names are given last one first. The directories above it may be there
already. -/
def makeUp (anchor : Anchor) (presentIsFine : Bool) : List Text → Attempt FileError Unit
  | [] => accept presentIsFine ⟨anchor, []⟩ (.makeDirectory ⟨anchor, []⟩)
  | name :: above => do
      let p : Path := ⟨anchor, (name :: above).reverse⟩
      match ← (Attempt.makeDirectory p).outcome with
      | .error ⟨.missing, _⟩ =>
          makeUp anchor true above
          accept presentIsFine p (.makeDirectory p)
      | result => accept presentIsFine p (.ofOutcome result)

def makeNew (p : Path) : Attempt FileError Unit := makeUp p.anchor false p.names.reverse

def ensure (p : Path) : Attempt FileError Unit := makeUp p.anchor true p.names.reverse

end ScriptWeave.Directories
