import AheadOfTime.Compilation.Results
import AheadOfTime.Marking.Sequential
import AheadOfTime.Marking.Waves
import AheadOfTime.Settings.Basic

/-! Running a compilation: gather the roots, mark what they need, fold equal blobs, collect the
metadata and write the logs that were asked for. -/

namespace AheadOfTime

/-- A compilation whose settings are in order. -/
structure Compilation (β : Type) where
  program : Program β
  tracking : TrackingLevel
  roots : List RootSource
  metadataLog : Option Files.Path
  dependencyLog : Option Files.Path
  parallel : Bool

def Settings.compilation {β : Type} (s : Settings) (world : World) (unit : CompilationUnit)
    (backend : Backend β) : Except SettingsError (Compilation β) :=
  s.check.map fun backendOptions =>
    { program := ⟨world, unit, backend, ⟨s.optimization, s.debugInfo, backendOptions⟩⟩
      tracking := s.tracking
      roots := s.roots
      metadataLog := s.metadataLog
      dependencyLog := s.dependencyLog
      parallel := s.parallel }

/-- What a run of a compilation changes and the next run finds. -/
structure Session (β : Type) where
  store : Store β
  files : Files.Tree
  transcript : Transcript

/-- Writes a log if there is a path for it. -/
def writeArtifact (path : Option Files.Path) (contents : Files.Path → String)
    (files : Files.Tree) : Files.Tree × List ArtifactFailure :=
  match path with
  | none => (files, [])
  | some p =>
    match files.write p (contents p) with
    | .ok files => (files, [])
    | .error cause => (files, [⟨p, cause⟩])

namespace Compilation

variable {β : Type}

/-- Marks everything that the roots need. -/
def walk (c : Compilation β) (roots : List Root) (s : Store β) : Outcome (Store β) NodeError :=
  let w := roots.foldl (fun w r => w.addRoot r.node r.reason) (.start c.tracking)
  if c.parallel then c.program.graph.drainWaves w s else c.program.graph.drain w s

def resultNodes (s : Store β) (marked : List NodeId) : List ResultNode :=
  marked.filterMap fun n => (s.node? n).map fun node => ⟨n, node.name, node.key⟩

/-- Writes the metadata log and then the dependency log. -/
def writeLogs (c : Compilation β) (metadata : Metadata) (report : Option Report)
    (files : Files.Tree) : Files.Tree × List ArtifactFailure :=
  let (files, first) := writeArtifact c.metadataLog (fun _ => metadata.text) files
  match report with
  | none => (files, first)
  | some report =>
    let (files, second) := writeArtifact c.dependencyLog report.contentsFor files
    (files, first ++ second)

/-- What comes after a walk that marked everything. -/
def finish (c : Compilation β) (w : Walk) (x : Session β) : Results × Session β :=
  let metadata := Metadata.of c.program x.store w.marked
  let report := w.report x.store.name
  let (files, failures) := c.writeLogs metadata report x.files
  let transcript := failures.foldl (fun t f => t.say ("warning: " ++ f.message)) x.transcript
  ({ marked := resultNodes x.store w.marked
     report
     counters := w.counters
     folding := .of x.store w.marked
     metadata
     failures },
   { x with files, transcript })

def run (c : Compilation β) (x : Session β) : Except Error Results × Session β :=
  let gathered := c.program.gather c.roots x.store
  match gathered.error with
  | some e => (.error (.roots e), { x with store := gathered.store })
  | none =>
    let transcript := x.transcript.say (toString gathered.roots.length ++ " compilation roots")
    let outcome := c.walk gathered.roots gathered.store
    match outcome.error with
    | some e => (.error (.walk e), { x with store := outcome.state, transcript })
    | none =>
      let counters := outcome.walk.counters
      let transcript := transcript.say (toString counters.marked ++ " nodes marked, " ++
        toString counters.edges ++ " edges visited")
      let (results, x) := c.finish outcome.walk { x with store := outcome.state, transcript }
      (.ok results, x)

end Compilation

end AheadOfTime
