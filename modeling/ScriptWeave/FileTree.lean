import ScriptWeave.FileError
import ScriptWeave.Text.Encoding

/-!
A file system as a finite map from places to nodes. A place is the list of names that leads to it
from the root, without links and double dots; the root itself is always a directory and is not
listed. Operations take paths as written and follow links the way a kernel does.
-/

namespace ScriptWeave

abbrev Place := List Text

inductive Node where
  | file (content : Bytes) (runnable : Bool)
  | directory
  | link (target : Text)
  /-- A file that takes whatever is written to it and stays empty. -/
  | sink
  deriving DecidableEq, Repr

namespace Place

def sameDepth : Place → Place → Bool
  | [], [] => true
  | _ :: p, _ :: q => sameDepth p q
  | _, _ => false

/-- Whether two places are one. Their depths are compared first: places inside each other share
their leading names. -/
def same (p q : Place) : Bool := sameDepth p q && p == q

theorem sameDepth_self (p : Place) : sameDepth p p = true := by
  induction p with
  | nil => rfl
  | cons name p ih => exact ih

theorem same_iff {p q : Place} : same p q = true ↔ p = q := by
  simp only [same, Bool.and_eq_true, beq_iff_eq]
  exact ⟨And.right, fun h => ⟨h ▸ sameDepth_self p, h⟩⟩

theorem same_eq_false_iff {p q : Place} : same p q = false ↔ p ≠ q := by
  rw [← Bool.not_eq_true, same_iff]

end Place

structure FileTree where
  nodes : List (Place × Node) := []
  deriving DecidableEq, Repr

namespace FileTree

def get? (t : FileTree) (p : Place) : Option Node :=
  if p = [] then some .directory else (t.nodes.find? fun e => Place.same e.1 p).map (·.2)

def put (t : FileTree) (p : Place) (n : Node) : FileTree :=
  ⟨(p, n) :: t.nodes.filter fun e => !Place.same e.1 p⟩

def erase (t : FileTree) (p : Place) : FileTree := ⟨t.nodes.filter fun e => !Place.same e.1 p⟩

def clear (t : FileTree) (p : Place) : FileTree :=
  ⟨t.nodes.filter fun e => e.1 = p || !p.isPrefixOf e.1⟩

theorem get?_root (t : FileTree) : t.get? [] = some .directory := rfl

theorem get?_put_self (t : FileTree) {p : Place} (n : Node) (h : p ≠ []) :
    (t.put p n).get? p = some n := by
  simp [get?, put, h, Place.same_iff]

theorem find?_filter_ne (es : List (Place × Node)) {p q : Place} (h : q ≠ p) :
    ((es.filter fun e => !Place.same e.1 p).find? fun e => Place.same e.1 q) =
      es.find? fun e => Place.same e.1 q := by
  induction es with
  | nil => rfl
  | cons e es ih =>
      by_cases hp : e.1 = p
      · have hq : e.1 ≠ q := fun hq => h (hq.symm.trans hp)
        rw [List.filter_cons_of_neg (by simp [Place.same_iff, hp]),
          List.find?_cons_of_neg (by simp [Place.same_iff, hq])]
        exact ih
      · rw [List.filter_cons_of_pos (by simp [Place.same_eq_false_iff, hp])]
        by_cases hq : e.1 = q
        · simp [Place.same_iff, hq]
        · rw [List.find?_cons_of_neg (by simp [Place.same_iff, hq]),
            List.find?_cons_of_neg (by simp [Place.same_iff, hq])]
          exact ih

theorem get?_put_of_ne (t : FileTree) {p q : Place} (n : Node) (h : q ≠ p) :
    (t.put p n).get? q = t.get? q := by
  simp only [get?, put]
  rw [List.find?_cons_of_neg (by simp [Place.same_iff, Ne.symm h]), find?_filter_ne t.nodes h]

theorem get?_erase_of_ne (t : FileTree) {p q : Place} (h : q ≠ p) :
    (t.erase p).get? q = t.get? q := by
  simp only [get?, erase]
  rw [find?_filter_ne t.nodes h]

theorem get?_erase_self (t : FileTree) {p : Place} (h : p ≠ []) : (t.erase p).get? p = none := by
  simp only [get?, erase, h, if_false, Option.map_eq_none_iff, List.find?_eq_none,
    List.mem_filter]
  intro e he
  simpa using he.2

def nameLimit : Nat := 255

def pathLimit : Nat := 4096

def linkLimit : Nat := 40

def isMark (name : Text) : Bool := name = [] || name = ['.']

/-- Walks from a directory along names. `jump` continues behind a link. A last name that is a link
is followed only if the walk is told to; whether the last place is there is left open. -/
def walkNames (t : FileTree) (follow : Bool) (jump : Place → List Text → Except FileCause Place) :
    Place → List Text → Except FileCause Place
  | here, [] => .ok here
  | here, name :: names =>
      if isMark name then walkNames t follow jump here names
      else if name = "..".toList then walkNames t follow jump here.dropLast names
      else if nameLimit < (Text.encode name).length then .error .nameTooLong
      else
        match t.get? (here ++ [name]) with
        | some .directory => walkNames t follow jump (here ++ [name]) names
        | some (.link target) =>
            if names = [] ∧ follow = false then .ok (here ++ [name])
            else
              let target := Path.ofWritten target
              jump (if target.isAbsolute then [] else here) (target.names ++ names)
        | some _ => if names = [] then .ok (here ++ [name]) else .error .notDirectory
        | none => if names = [] then .ok (here ++ [name]) else .error .missing

def walk (t : FileTree) (follow : Bool) : Nat → Place → List Text → Except FileCause Place
  | 0 => walkNames t follow fun _ _ => .error .tooManyLinks
  | budget + 1 => walkNames t follow (walk t follow budget)

def startOf (directory : Place) (p : Path) : Place := if p.isAbsolute then [] else directory

def isTooLong (p : Path) : Bool := pathLimit ≤ (Text.encode p.toText).length

def locate (t : FileTree) (follow : Bool) (directory : Place) (p : Path) : Except FileCause Place :=
  if p.names.any (·.contains '\x00') then .error .nullCharacter
  else if isTooLong p then .error .nameTooLong
  else walk t follow linkLimit (startOf directory p) p.names

def find (t : FileTree) (follow : Bool) (directory : Place) (p : Path) :
    Except FileCause (Place × Node) :=
  match t.locate follow directory p with
  | .error cause => .error cause
  | .ok place =>
      match t.get? place with
      | none => .error .missing
      | some node => .ok (place, node)

/-! ### Questions -/

/-- A path that leads nowhere is one that does not exist; only one that is too long is an error. -/
def exists? (t : FileTree) (directory : Place) (p : Path) : Except FileCause Bool :=
  match t.find true directory p with
  | .ok _ => .ok true
  | .error .nameTooLong => .error .nameTooLong
  | .error _ => .ok false

def isDirectory (t : FileTree) (directory : Place) (p : Path) : Bool :=
  match t.find true directory p with
  | .ok (_, .directory) => true
  | _ => false

def isRunnable (t : FileTree) (directory : Place) (p : Path) : Bool :=
  match t.find true directory p with
  | .ok (_, .file _ runnable) => runnable
  | _ => false

def isLink (t : FileTree) (directory : Place) (p : Path) : Bool :=
  match t.find false directory p with
  | .ok (_, .link _) => true
  | _ => false

def nameIn? (directory place : Place) : Option Text :=
  if place.dropLast = directory then place.getLast? else none

def list (t : FileTree) (directory : Place) (p : Path) : Except FileCause (List Text) :=
  match t.find true directory p with
  | .error cause => .error cause
  | .ok (place, .directory) => .ok (t.nodes.filterMap fun e => nameIn? place e.1)
  | .ok (_, _) => .error .notDirectory

def readFile (t : FileTree) (directory : Place) (p : Path) : Except FileCause Bytes :=
  match t.find true directory p with
  | .error cause => .error cause
  | .ok (_, .file content _) => .ok content
  | .ok (_, .sink) => .ok []
  | .ok (_, _) => .error .isDirectory

def isFilled (t : FileTree) (place : Place) : Bool :=
  t.nodes.any fun e => (nameIn? place e.1).isSome

/-! ### Changes -/

def makeDirectory (t : FileTree) (directory : Place) (p : Path) : Except FileCause FileTree :=
  match t.locate false directory p with
  | .error cause => .error cause
  | .ok place =>
      match t.get? place with
      | none => .ok (t.put place .directory)
      | some _ => .error .exists

def makeLink (t : FileTree) (directory : Place) (p : Path) (target : Text) :
    Except FileCause FileTree :=
  match t.locate false directory p with
  | .error cause => .error cause
  | .ok place =>
      match t.get? place with
      | none => if target = [] then .error .missing else .ok (t.put place (.link target))
      | some _ => .error .exists

def mark (t : FileTree) (directory : Place) (p : Path) (runnable : Bool) :
    Except FileCause FileTree :=
  match t.find true directory p with
  | .error cause => .error cause
  | .ok (place, .file content _) => .ok (t.put place (.file content runnable))
  | .ok _ => .ok t

/-- Changes the content of a file, which is empty if the file is new. A path that ends in a slash
names no file. -/
def modifyFile (t : FileTree) (directory : Place) (p : Path) (change : Bytes → Bytes) :
    Except FileCause FileTree :=
  let endsInSlash := p.names.getLast? = some []
  match t.locate true directory (if endsInSlash then p.parent else p) with
  | .error cause => .error cause
  | .ok place =>
      if endsInSlash then .error .isDirectory
      else
        match t.get? place with
        | none => .ok (t.put place (.file (change []) false))
        | some (.file content runnable) => .ok (t.put place (.file (change content) runnable))
        | some .sink => .ok t
        | some _ => .error .isDirectory

def writeFile (t : FileTree) (directory : Place) (p : Path) (content : Bytes) :
    Except FileCause FileTree :=
  t.modifyFile directory p fun _ => content

def appendFile (t : FileTree) (directory : Place) (p : Path) (content : Bytes) :
    Except FileCause FileTree :=
  t.modifyFile directory p (· ++ content)

def removeFile (t : FileTree) (directory : Place) (p : Path) : Except FileCause FileTree :=
  match t.find false directory p with
  | .error cause => .error cause
  | .ok (_, .directory) => .error .isDirectory
  | .ok (place, _) => .ok (t.erase place)

def removeDirectory (t : FileTree) (directory : Place) (p : Path) : Except FileCause FileTree :=
  match t.find false directory p with
  | .error cause => .error cause
  | .ok (place, .directory) =>
      if t.isFilled place then .error .notEmpty
      else if place = [] ∨ isMark p.name then .error .invalid
      else .ok (t.erase place)
  | .ok (_, _) => .error .notDirectory

def graft (t : FileTree) (source target : Place) : FileTree :=
  ⟨t.nodes.map fun e =>
    if source.isPrefixOf e.1 then (target ++ e.1.drop source.length, e.2) else e⟩

def moveDirectory (t : FileTree) (source target : Place) : Except FileCause FileTree :=
  if source = target then .ok t
  else if source.isPrefixOf target then .error .invalid
  else
    match t.get? target with
    | none => .ok (t.graft source target)
    | some .directory =>
        if t.isFilled target then .error .notEmpty
        else .ok ((t.erase target).graft source target)
    | some _ => .error .notDirectory

def rename (t : FileTree) (directory : Place) (source target : Path) : Except FileCause FileTree :=
  match t.find false directory source, t.locate false directory target with
  | .error cause, _ => .error cause
  | _, .error cause => .error cause
  | .ok (sourcePlace, .directory), .ok place => t.moveDirectory sourcePlace place
  | .ok (sourcePlace, node), .ok place =>
      match t.get? place with
      | some .directory => .error .isDirectory
      | _ => .ok ((t.erase sourcePlace).put place node)

/-- Removes a directory with everything below it. First its content goes and then the directory,
by the path as written, which may have led through that content. -/
def removeTree (t : FileTree) (directory : Place) (p : Path) : FileTree × Except FileCause Unit :=
  match t.find false directory p with
  | .error cause => (t, .error cause)
  | .ok (place, .directory) =>
      let cleared := t.clear place
      match cleared.find false directory p with
      | .error cause => (cleared, .error cause)
      | .ok (place, _) =>
          if place = [] ∨ p.name = "..".toList then (cleared, .error .invalid)
          else (cleared.erase place, .ok ())
  | .ok (_, _) => (t, .error .notDirectory)

end FileTree

end ScriptWeave
