import AheadOfTime.Files.Path

/-! What can be wrong with the settings of a compilation. -/

namespace AheadOfTime

inductive SettingsError where
  | noSuchTracking (text : String)
  | noSuchOptimization (text : String)
  | malformed (backendOption : String)
  /-- A dependency log is asked for, and nothing is recorded. -/
  | untrackedLog (p : Files.Path)
  /-- Both logs would go to one file. -/
  | sharedLog (p : Files.Path)
deriving DecidableEq

def SettingsError.message : SettingsError → String
  | .noSuchTracking text =>
    "unknown dependency tracking level `" ++ text ++ "` (expected none, first or all)"
  | .noSuchOptimization text =>
    "unknown optimization mode `" ++ text ++
      "` (expected none, prefer-size, blended or prefer-speed)"
  | .malformed text =>
    "malformed backend option `" ++ text ++ "` (expected `name` or `name=value`)"
  | .untrackedLog p =>
    "dependency log `" ++ p.text ++ "` requested but dependency tracking is disabled"
  | .sharedLog p => "metadata log and dependency log both write to `" ++ p.text ++ "`"

end AheadOfTime
