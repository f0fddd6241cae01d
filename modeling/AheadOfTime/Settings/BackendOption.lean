import AheadOfTime.Settings.Error
import AheadOfTime.Text.Blank

/-! Options of a backend, written `name` or `name=value`. -/

namespace AheadOfTime

structure BackendOption where
  name : String
  value : Option String
deriving DecidableEq

namespace BackendOption

/-- The text before the first `=`, and the text after it if there is one. -/
def split (cs : List Char) : List Char × Option (List Char) :=
  match cs.dropWhile (· ≠ '=') with
  | [] => (cs.takeWhile (· ≠ '='), none)
  | _ :: value => (cs.takeWhile (· ≠ '='), some value)

/-- A name is some text without white space, and a value that is given is some text. -/
def accepts (name : List Char) (value : Option (List Char)) : Bool :=
  name ≠ [] && !name.any Text.isBlank && value ≠ some []

def parse (text : String) : Except SettingsError BackendOption :=
  let (name, value) := split text.toList
  if accepts name value then .ok ⟨String.ofList name, value.map String.ofList⟩
  else .error (.malformed text)

def text (o : BackendOption) : String :=
  match o.value with
  | some value => o.name ++ "=" ++ value
  | none => o.name

end BackendOption

end AheadOfTime
