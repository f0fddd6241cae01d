import AheadOfTime.Settings.BackendOption
import AheadOfTime.Settings.Choice
import AheadOfTime.Node.Request

/-! The boundary to code generation: a backend turns a method into code and tells what the code
refers to. It may keep a state of type `β`. -/

namespace AheadOfTime

structure MethodBody where
  code : List UInt8
  references : List Reference
deriving DecidableEq

inductive BackendError where
  /-- The method has no body, or one that the backend does not know how to compile. -/
  | unsupported (text : String)
  | backend (text : String)
deriving DecidableEq

def BackendError.message : BackendError → String
  | .unsupported text => text
  | .backend text => "backend failure: " ++ text

/-- What a backend is told for every method. -/
structure CodeSettings where
  optimization : Optimization
  debugInfo : Bool
  backendOptions : List BackendOption

/-- The last option of a name. -/
def CodeSettings.option? (s : CodeSettings) (name : String) : Option BackendOption :=
  s.backendOptions.reverse.find? (·.name = name)

structure Backend (β : Type) where
  compile : World → CodeSettings → MethodId → β → Except BackendError MethodBody × β

end AheadOfTime
