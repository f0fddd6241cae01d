import AheadOfTime.Compilation.Folding
import AheadOfTime.Compilation.Metadata
import AheadOfTime.Files.Tree
import AheadOfTime.Marking.Walk
import AheadOfTime.Settings.Error

/-! What a run of a compilation gives: its results, or the error that ended it. -/

namespace AheadOfTime

/-- A marked node as the results show it. -/
structure ResultNode where
  id : NodeId
  name : String
  key : Key
deriving DecidableEq

/-- A log that could not be written; the compilation goes on. -/
structure ArtifactFailure where
  artifact : Files.Path
  cause : Files.WriteError
deriving DecidableEq

def ArtifactFailure.message (f : ArtifactFailure) : String :=
  "could not write " ++ f.artifact.text ++ ": " ++ f.cause.message

structure Results where
  /-- In the order of marking. -/
  marked : List ResultNode
  report : Option Report
  counters : Counters
  folding : Folding
  metadata : Metadata
  failures : List ArtifactFailure

/-- The first marked node of a name. -/
def Results.find? (r : Results) (name : String) : Option ResultNode :=
  r.marked.find? (·.name = name)

inductive Compilation.Error where
  | settings (e : SettingsError)
  | roots (e : NodeError)
  | walk (e : WalkError NodeError)

def Compilation.Error.message : Compilation.Error → String
  | .settings e => e.message
  | .roots e => e.message
  | .walk e => e.message

end AheadOfTime
