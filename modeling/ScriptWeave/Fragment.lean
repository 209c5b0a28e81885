import ScriptWeave.Path
import ScriptWeave.Text.Lines

namespace ScriptWeave

structure Fragment where
  path : Text
  text : Text
  deriving DecidableEq, Repr

namespace Fragment

def name (f : Fragment) : Text := (Path.ofText f.path).name

def lines (f : Fragment) : List Text := Text.splitLines f.text

end Fragment

namespace Path

def attributeEndings : List Text := [".attr.g.cs", ".attr.g.vb"]

/-- Helpers that a debugger injects; they declare extension methods, which a script may not. -/
def injectedLead : Text := "dbg.inject."

/-- Whether a file may take part in a merge, judged by its name. The marks hold ASCII letters
only, and no other character has one of those as its small letter. -/
def isMergeable (p : Path) : Bool :=
  let name := Text.lowerAscii p.name
  !attributeEndings.any (·.isSuffixOf name) && !injectedLead.isPrefixOf name

end Path

end ScriptWeave
