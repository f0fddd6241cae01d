import AheadOfTime.Compilation.Basic
import AheadOfTime.Codegen.Scripted
import AheadOfTime.Graph.Table
import AheadOfTime.World.Population
import AheadOfTime.Marking.Command
import AheadOfTime.Proofs.Marking.Mark
import AheadOfTime.Proofs.Marking.Moves
import AheadOfTime.Proofs.Marking.Waves
import AheadOfTime.Proofs.Marking.Resumed
import AheadOfTime.Proofs.Marking.Lockstep
import AheadOfTime.Proofs.Marking.Origins
import AheadOfTime.Proofs.Marking.Closure
import AheadOfTime.Proofs.Marking.Accounts
import AheadOfTime.Proofs.Marking.EdgeLog
import AheadOfTime.Proofs.Marking.Discovery
import AheadOfTime.Proofs.Marking.Trails
import AheadOfTime.Proofs.Settings.BackendOption
import AheadOfTime.Proofs.Symbol.Escaped
import AheadOfTime.Proofs.Symbol.Injective
import AheadOfTime.Proofs.Except
import AheadOfTime.Proofs.World.Steps
import AheadOfTime.Proofs.World.WellFormed
import AheadOfTime.Proofs.World.Interned
import AheadOfTime.Proofs.World.Descent
import AheadOfTime.Proofs.World.Integrity
import AheadOfTime.Proofs.World.Lasting
import AheadOfTime.Proofs.CompilationUnit
import AheadOfTime.Proofs.CompilationUnit.Mentioned
import AheadOfTime.Proofs.Symbol.Identity
import AheadOfTime.Proofs.Symbol.Kinds
import AheadOfTime.Proofs.Node.Steps
import AheadOfTime.Proofs.Node.Answers
import AheadOfTime.Proofs.Node.Identity
import AheadOfTime.Proofs.Node.Progress
import AheadOfTime.Proofs.Compilation.Run
import AheadOfTime.Proofs.Compilation.Closure
import AheadOfTime.Proofs.Compilation.Parallel
import AheadOfTime.Proofs.Compilation.Folding
import AheadOfTime.Proofs.Compilation.Metadata
import AheadOfTime.Proofs.Compilation.Guided
import AheadOfTime.Proofs.Compilation.Alike
import AheadOfTime.Proofs.Compilation.Reordered
import AheadOfTime.Proofs.Marking.Pops
import AheadOfTime.Proofs.Marking.Termination
import AheadOfTime.Proofs.Marking.Observed
import AheadOfTime.Proofs.Marking.Reasons
import AheadOfTime.Proofs.Marking.Tracking
import AheadOfTime.Proofs.Compilation.Diagnostics
import AheadOfTime.Proofs.Node.Universe
import AheadOfTime.Proofs.Compilation.Termination
import AheadOfTime.Proofs.Marking.Repeated
import AheadOfTime.Proofs.Node.Repeated
import AheadOfTime.Proofs.Compilation.Repeated
import AheadOfTime.Proofs.Marking.Asked
import AheadOfTime.Proofs.Node.Calls
import AheadOfTime.Proofs.Compilation.Calls
import AheadOfTime.Proofs.Node.Boundary
import AheadOfTime.Proofs.Compilation.Boundary
import AheadOfTime.Proofs.Compilation.Symbols
import AheadOfTime.Proofs.Marking.Reworded
import AheadOfTime.Proofs.Node.Reworded
import AheadOfTime.Proofs.Compilation.EveryModule
import AheadOfTime.Proofs.Symbol.Accepted
import AheadOfTime.Proofs.Node.Expansion
import AheadOfTime.Proofs.Compilation.Expansion
import AheadOfTime.Proofs.Node.Lasting
import AheadOfTime.Proofs.Compilation.Partition
import AheadOfTime.Proofs.Files.Tree
import AheadOfTime.Proofs.Compilation.Logs
import AheadOfTime.Proofs.Marking.Known
import AheadOfTime.Proofs.Node.Causes
import AheadOfTime.Proofs.Compilation.Causes
import AheadOfTime.Proofs.Marking.Distance
import AheadOfTime.Proofs.Marking.Questions
import AheadOfTime.Proofs.Compilation.Emitted
import AheadOfTime.Proofs.Compilation.Library
