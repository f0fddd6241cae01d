import AheadOfTime.Compilation.Roots
import AheadOfTime.Compilation.Transcript
import AheadOfTime.Text.Quoted

/-! The settings of a compilation, and the check that they do not contradict one another. -/

namespace AheadOfTime

structure Settings where
  transcript : Transcript
  tracking : TrackingLevel
  roots : List RootSource
  optimization : Optimization
  debugInfo : Bool
  /-- As they were written; the check reads them. -/
  backendOptions : List String
  dependencyLog : Option Files.Path
  metadataLog : Option Files.Path
  /-- Whether the walk goes in waves. -/
  parallel : Bool

namespace Settings

/-- The backend options, if nothing is wrong with the settings. -/
def check (s : Settings) : Except SettingsError (List BackendOption) := do
  let backendOptions ← s.backendOptions.mapM BackendOption.parse
  if let some p := s.dependencyLog then
    if s.tracking = .none then throw (.untrackedLog p)
    if let some q := s.metadataLog then
      if p.alike q then throw (.sharedLog p)
  return backendOptions

def describePath : Option Files.Path → String
  | some p => "Some(" ++ Text.quoted p.text ++ ")"
  | none => "None"

/-- All settings on one line, the roots as a count. -/
def describe (s : Settings) : String :=
  "CompilationOptions \x7b logger: " ++ s.transcript.describe ++
    ", tracking_level: " ++ s.tracking.name ++
    ", roots: " ++ toString s.roots.length ++
    ", optimization_mode: " ++ s.optimization.name ++
    ", debug_info: " ++ toString s.debugInfo ++
    ", backend_options: [" ++ ", ".intercalate (s.backendOptions.map Text.quoted) ++ "]" ++
    ", dependency_log_file: " ++ describePath s.dependencyLog ++
    ", metadata_log_file: " ++ describePath s.metadataLog ++
    ", parallel: " ++ toString s.parallel ++ " \x7d"

end Settings

end AheadOfTime
