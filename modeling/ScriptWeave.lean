import ScriptWeave.CompilerOutput
import ScriptWeave.Host
import ScriptWeave.Main
import ScriptWeave.Proofs.Coverage
import ScriptWeave.Proofs.Markers
import ScriptWeave.Proofs.Columns
import ScriptWeave.Proofs.Header.Locality
import ScriptWeave.Proofs.Header.Concatenation
import ScriptWeave.Proofs.Header.Grammar
import ScriptWeave.Proofs.Header.Lexical
import ScriptWeave.Proofs.Header.Derivation
import ScriptWeave.Proofs.Header.Acceptance
import ScriptWeave.Proofs.CompilerOutput.RoundTrip
import ScriptWeave.Proofs.Build
import ScriptWeave.Proofs.Leftovers
import ScriptWeave.Proofs.FileTree.Drift
import ScriptWeave.Proofs.FileTree.Preservation
import ScriptWeave.Proofs.Interleaving
import ScriptWeave.Proofs.Steadiness.Actions
import ScriptWeave.Proofs.Steadiness.Directories
import ScriptWeave.Proofs.Readers
import ScriptWeave.Proofs.Rollback
import ScriptWeave.Proofs.BreakStyle
import ScriptWeave.Proofs.ExitCodes
import ScriptWeave.Proofs.Steadiness.Publication
import ScriptWeave.Proofs.Steadiness.Workspace
import ScriptWeave.Proofs.Header.Truncation
import ScriptWeave.Proofs.Header.Halves
import ScriptWeave.Proofs.FaultLines
import ScriptWeave.Proofs.Header.Gaps
import ScriptWeave.Proofs.Header.Comments
import ScriptWeave.Proofs.RangeMap
import ScriptWeave.Proofs.Isolation
import ScriptWeave.Proofs.Hoisting
import ScriptWeave.Proofs.Settled
import ScriptWeave.Proofs.BareNames
import ScriptWeave.Proofs.CompilerOutput.Streams
import ScriptWeave.Proofs.CompilerCall
import ScriptWeave.Proofs.ConfiguredDirectories
import ScriptWeave.Proofs.References
import ScriptWeave.Proofs.SourceSelection
import ScriptWeave.Proofs.CutLines
import ScriptWeave.Proofs.SettingsFormat
import ScriptWeave.Proofs.ToldFailures
import ScriptWeave.Proofs.WorkspacePaths
import ScriptWeave.Proofs.FileTree.Filling
import ScriptWeave.Proofs.Progress.Build
