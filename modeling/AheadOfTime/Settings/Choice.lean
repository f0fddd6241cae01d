import AheadOfTime.Settings.Error
import AheadOfTime.Marking.Record

/-! The two choices that settings name by a word: how much of the graph is recorded, and what the
generated code is optimized for. Words are read without regard to case. -/

namespace AheadOfTime

inductive Optimization where
  | none
  | preferSize
  | blended
  | preferSpeed
deriving DecidableEq

namespace TrackingLevel

def parse (text : String) : Except SettingsError TrackingLevel :=
  match text.toLower with
  | "none" => .ok .none
  | "first" => .ok .first
  | "all" => .ok .all
  | _ => .error (.noSuchTracking text)

def text : TrackingLevel → String
  | .none => "none"
  | .first => "first"
  | .all => "all"

/-- The name of the level where settings are described. -/
def name : TrackingLevel → String
  | .none => "None"
  | .first => "First"
  | .all => "All"

end TrackingLevel

namespace Optimization

/-- Underscores may stand for hyphens. -/
def parse (text : String) : Except SettingsError Optimization :=
  match text.toLower.map fun c => if c = '_' then '-' else c with
  | "none" => .ok .none
  | "prefer-size" | "size" => .ok .preferSize
  | "blended" => .ok .blended
  | "prefer-speed" | "speed" => .ok .preferSpeed
  | _ => .error (.noSuchOptimization text)

def text : Optimization → String
  | .none => "none"
  | .preferSize => "prefer-size"
  | .blended => "blended"
  | .preferSpeed => "prefer-speed"

/-- The name of the mode where settings are described. -/
def name : Optimization → String
  | .none => "None"
  | .preferSize => "PreferSize"
  | .blended => "Blended"
  | .preferSpeed => "PreferSpeed"

end Optimization

end AheadOfTime
