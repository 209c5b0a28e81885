import ScriptWeave.CommandLine.Run
import ScriptWeave.Program
import ScriptWeave.Proofs.Faults
import ScriptWeave.Proofs.Json.RoundTrip
import ScriptWeave.Proofs.SourceSelection

/-!
How runs of the command line end. A run reports what its settings and its compile come to, with the
exit code that belongs to it, and what it prints for programs is one value that says the same. Some
things end a run without a report; where there is none of them, it reports.
-/

namespace ScriptWeave

open Attempt

/-! ### Sources -/

namespace Sources

variable {h h' : Host} {p : Path}

end Sources

/-! ### Compiles -/

namespace Build

variable {h : Host} {backEnd : BackEnd} {settings : Settings} {options : BuildOptions}
variable {names : BuildNames} {sources : List Path} {fault : BuildFault}

/-- Nothing that is given to a build besides its sources has a null character in it. -/
structure Clean (settings : Settings) (options : BuildOptions) (names : BuildNames) : Prop where
  cacheRoot : settings.cacheRoot.NullFree
  output : options.output.NullFree
  session : '\x00' ∉ names.session
  binary : '\x00' ∉ names.copies.binary
  symbols : '\x00' ∉ names.copies.symbols

end Build

/-! ### Reports -/

namespace CommandLine

/-- The compile that a run comes to once it has its settings. -/
def compile (e : Environment) (launch : Launcher) (names : BuildNames) (i : Invocation)
    (s : Settings) : Attempt BuildFault BuildResult := do
  let sources ← (Sources.select (i.source :: i.imported)).rephrase .unresolved
  let compiler : Compiler := { command := s.compiler }
  Build.run (compiler.emit e.searchPath launch) s ⟨i.output, i.debug, i.references⟩ names sources

/-- As many calls in one another as a machine is sure to bear. -/
def nestingLimit : Nat := 900

/-- What a run goes into by a call for each level is no deeper than a machine bears: the settings' text,
links that lead to links, directories that are made one above the other, and those that are removed
with all that is in them. The definitions here know no such bound. -/
structure Shallow (e : Environment) (launch : Launcher) (names : BuildNames) (i : Invocation)
    (h : Host) : Prop where
  settings : ∀ p content, i.config = some p → h.tree.readFile h.directory p = .ok content →
    content.countP (fun b => b = 0x5B || b = 0x7B) ≤ nestingLimit
  links : ∀ p ∈ i.source :: i.imported, ∃ q,
    h.tree.resolveWithin h.directory nestingLimit [] (p.start ⟨.relative, []⟩) p.names = .ok q
  cacheRoot : ∀ s, ((CommandLine.settings e i).on h).1 = .ok s →
    s.cacheRoot.names.length ≤ nestingLimit
  output : i.output.names.length ≤ nestingLimit
  removed : ∀ after ∈ (run e launch names i).run.states h, ∀ entry ∈ after.tree.nodes,
    entry.1.length ≤ nestingLimit

/-- Nothing ends a run before its report: the directory that it starts in is there, the settings name
no home that nobody has, the sources resolve, the output has a name, no path has a character that
the operating system refuses, and nothing is too deep. -/
structure Unhindered (e : Environment) (launch : Launcher) (names : BuildNames) (i : Invocation)
    (h : Host) : Prop where
  standing : h.tree.get? h.directory = some .directory
  home : ((settings e i).on h).1 ≠ .error .noHome
  resolves : ∀ p ∈ i.source :: i.imported, ∃ q, h.tree.resolve h.directory p = .ok q
  named : i.output.name ≠ []
  clean : ∀ s, ((settings e i).on h).1 = .ok s →
    Build.Clean s ⟨i.output, i.debug, i.references⟩ names
  shallow : Shallow e launch names i h

variable {e : Environment} {launch : Launcher} {names : BuildNames} {i : Invocation} {h : Host}
variable {s : Settings}

/-- What a compile is reported as; only the faults of a tool are reported. -/
def reported : Except BuildFault BuildResult → Except BuildFault Report
  | .ok result => .ok (ofResult result)
  | .error (.tool fault) => .ok ⟨2, [fault.toDiagnostic]⟩
  | .error fault => .error fault

end CommandLine

end ScriptWeave
