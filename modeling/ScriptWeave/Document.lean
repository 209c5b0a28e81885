import ScriptWeave.Fragment
import ScriptWeave.RangeMap

namespace ScriptWeave

def lineMarker (line : Int) (path : Text) : Text :=
  "#line " ++ Text.ofInt line ++ " \"" ++ path ++ "\""

structure Document where
  lines : List Text := []
  markers : List Nat := []
  ranges : RangeMap := {}
  deriving DecidableEq, Repr

namespace Document

def addMarker (d : Document) (line : Int) (path : Text) : Document :=
  { d with
    lines := d.lines ++ [lineMarker line path]
    markers := d.markers ++ [d.lines.length] }

def addCode (d : Document) (file : Text) (code : List Text) (offset : Int) :
    Except RangeConflict Document :=
  match d.ranges.add d.lines.length (d.lines.length + code.length) file offset with
  | .error conflict => .error conflict
  | .ok (ranges, _) => .ok { d with lines := d.lines ++ code, ranges := ranges }

def text (d : Document) : Text := Text.unlines d.lines

end Document

inductive Addition where
  | marker (line : Int) (path : Text)
  | code (file : Text) (lines : List Text) (offset : Int)
  deriving DecidableEq, Repr

namespace Document

def add (d : Document) : Addition → Except RangeConflict Document
  | .marker line path => .ok (d.addMarker line path)
  | .code file lines offset => d.addCode file lines offset

def addAll (d : Document) : List Addition → Except RangeConflict Document
  | [] => .ok d
  | a :: as =>
      match d.add a with
      | .error conflict => .error conflict
      | .ok d => d.addAll as

end Document

end ScriptWeave
