import ScriptWeave.Document
import ScriptWeave.Header.Split

namespace ScriptWeave

/-- A source that cannot be read as a fragment: which one, why, and where if that is known. -/
structure SourceFault where
  path : Option Text
  reason : Text
  line : Option Int := none
  column : Option Int := none
  deriving DecidableEq, Repr

structure Import where
  fragment : Fragment
  split : Header.Split
  deriving DecidableEq, Repr

namespace Import

def ofFragment (f : Fragment) : Except SourceFault Import :=
  match Header.split f.text with
  | .ok s => .ok ⟨f, s⟩
  | .error fault =>
      let position := fault.position f.text
      .error ⟨some f.path, fault.cause.reason, some position.line, some position.column⟩

def ofFragments : List Fragment → Except SourceFault (List Import)
  | [] => .ok []
  | f :: fs =>
      match ofFragment f with
      | .error fault => .error fault
      | .ok i => (ofFragments fs).map (i :: ·)

def headerAddition (i : Import) : Addition := .code i.fragment.path i.split.headerLines 0

def bodyAdditions (i : Import) : List Addition :=
  [.marker (i.split.lineCount + 1) i.fragment.path,
    .code i.fragment.path i.split.bodyLines i.split.lineCount]

end Import

def mergeAdditions (hoist : Bool) (primary : Fragment) (imports : List Import) : List Addition :=
  (if hoist then imports.map Import.headerAddition else [])
    ++ [.marker 1 primary.path, .code primary.path primary.lines 0]
    ++ imports.flatMap Import.bodyAdditions

inductive MergeFault where
  | source (fault : SourceFault)
  | ranges (conflict : RangeConflict)
  deriving DecidableEq, Repr

def mergeImports (hoist : Bool) (primary : Fragment) (imports : List Import) :
    Except RangeConflict Document :=
  Document.addAll {} (mergeAdditions hoist primary imports)

def merge (hoist : Bool) (primary : Fragment) (imported : List Fragment) :
    Except MergeFault Document :=
  match Import.ofFragments imported with
  | .error fault => .error (.source fault)
  | .ok imports => (mergeImports hoist primary imports).mapError .ranges

end ScriptWeave
