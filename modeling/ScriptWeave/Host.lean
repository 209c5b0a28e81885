import ScriptWeave.FileTree.Resolution
import ScriptWeave.Procedure

/-!
A host runs procedures: it has a file system, a directory in which relative paths start, and a
record of what was logged. Its clock stands still.
-/

namespace ScriptWeave

structure Host where
  tree : FileTree
  directory : Place := []
  log : List LogRecord := []
  deriving DecidableEq, Repr

def Host.attempt (h : Host) (p : Path) (change : Except FileCause FileTree) :
    Except FileError Unit × Host :=
  match change with
  | .ok tree => (.ok (), { h with tree })
  | .error cause => (.error ⟨cause, p⟩, h)

def Action.perform (h : Host) : (a : Action) → a.Reply × Host
  | .isPresent p => ((h.tree.exists? h.directory p).mapError (⟨·, p⟩), h)
  | .isDirectory p => (h.tree.isDirectory h.directory p, h)
  | .isRunnable p => (h.tree.isRunnable h.directory p, h)
  | .isLink p => (h.tree.isLink h.directory p, h)
  | .list p => ((h.tree.list h.directory p).mapError (⟨·, p⟩), h)
  | .resolve p => (h.tree.resolve h.directory p, h)
  | .read p => ((h.tree.readFile h.directory p).mapError (⟨·, p⟩), h)
  | .makeDirectory p => h.attempt p (h.tree.makeDirectory h.directory p)
  | .write p content => h.attempt p (h.tree.writeFile h.directory p content)
  | .append p content => h.attempt p (h.tree.appendFile h.directory p content)
  | .mark p runnable => h.attempt p (h.tree.mark h.directory p runnable)
  | .makeLink p target => h.attempt p (h.tree.makeLink h.directory p target)
  | .move source target => h.attempt source (h.tree.rename h.directory source target)
  | .removeFile p => h.attempt p (h.tree.removeFile h.directory p)
  | .removeDirectory p => h.attempt p (h.tree.removeDirectory h.directory p)
  | .removeTree p =>
      let (tree, result) := h.tree.removeTree h.directory p
      (result.mapError (⟨·, p⟩), { h with tree })
  | .log record => ((), { h with log := record :: h.log })
  | .clock => ((0 : Nat), h)

namespace Procedure

variable {α β : Type}

def run : Procedure α → Host → α × Host
  | .done a, h => (a, h)
  | .step action next, h =>
      let (reply, h) := action.perform h
      run (next reply) h

theorem run_bind (p : Procedure α) (f : α → Procedure β) (h : Host) :
    (bind p f).run h = (f (p.run h).1).run (p.run h).2 := by
  induction p generalizing h with
  | done a => rfl
  | step action next ih => simp only [bind, run, ih]

def states : Procedure α → Host → List Host
  | .done _, h => [h]
  | .step action next, h =>
      let (reply, after) := action.perform h
      h :: states (next reply) after

end Procedure

end ScriptWeave
