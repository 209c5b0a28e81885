import ScriptWeave.Text.Basic

namespace ScriptWeave

/-- The document's lines from `start` up to but not including `stop` are the lines of `file`
from `offset` on. -/
structure RangeEntry where
  start : Int
  stop : Int
  file : Text
  offset : Int
  deriving DecidableEq, Repr

namespace RangeEntry

def contains (e : RangeEntry) (line : Int) : Bool := e.start ≤ line && line < e.stop

def trace (e : RangeEntry) (line : Int) : Text × Int := (e.file, line - e.start + e.offset)

end RangeEntry

structure RangeMap where
  entries : List RangeEntry := []
  /-- The starts of the entries, among which a line is looked for. -/
  starts : List Int := []
  deriving DecidableEq, Repr

structure RangeConflict where
  start : Int
  stop : Int
  last : RangeEntry
  deriving DecidableEq, Repr

def RangeConflict.message (c : RangeConflict) : Text :=
  let interval (start stop : Int) : Text :=
    "[" ++ Text.ofInt start ++ ", " ++ Text.ofInt stop ++ ")"
  "range " ++ interval c.start c.stop ++ " overlaps or precedes "
    ++ interval c.last.start c.last.stop

namespace RangeMap

/-- Records an entry behind the others. An empty one is passed over, and one that does not lie behind
the last is refused. -/
def record (e : RangeEntry) : ExceptT RangeConflict (StateM RangeMap) (Option RangeEntry) := do
  if e.stop ≤ e.start then return none
  if let some last := (← get).entries.getLast? then
    if e.start < last.stop then throw ⟨e.start, e.stop, last⟩
  modify fun m => { m with entries := m.entries ++ [e] }
  modify fun m => { m with starts := m.starts ++ [e.start] }
  return some e

def call (m : RangeMap) (e : RangeEntry) : Except RangeConflict (Option RangeEntry) × RangeMap :=
  (record e).run.run m

/-- The map with one more entry, and that entry; an empty range leaves the map as it is. -/
def add (m : RangeMap) (start stop : Int) (file : Text) (offset : Int) :
    Except RangeConflict (RangeMap × Option RangeEntry) :=
  match m.call ⟨start, stop, file, offset⟩ with
  | (.ok recorded, m) => .ok (m, recorded)
  | (.error conflict, _) => .error conflict

def bisect (starts : List Int) (line : Int) : Nat → Nat → Nat → Nat
  | 0, low, _ => low
  | fuel + 1, low, high =>
      if low < high then
        let middle := (low + high) / 2
        match starts[middle]? with
        | none => low
        | some start =>
            if line < start then bisect starts line fuel low middle
            else bisect starts line fuel (middle + 1) high
      else low

def rank (m : RangeMap) (line : Int) : Nat :=
  bisect m.starts line m.starts.length 0 m.starts.length

def lookup (m : RangeMap) (line : Int) : Option RangeEntry :=
  match m.rank line with
  | 0 => none
  | n + 1 => m.entries[n]?.filter (·.contains line)

def scan (m : RangeMap) (line : Int) : Option RangeEntry := m.entries.find? (·.contains line)

/-- The file and line that a line of the document came from; nothing for a line that no entry
covers. -/
def trace (m : RangeMap) (line : Int) : Option (Text × Int) :=
  (m.lookup line).map (·.trace line)

def Ordered : List RangeEntry → Prop
  | [] => True
  | [e] => e.start < e.stop
  | e :: e' :: more => e.start < e.stop ∧ e.stop ≤ e'.start ∧ Ordered (e' :: more)

end RangeMap

end ScriptWeave
