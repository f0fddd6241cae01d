import AheadOfTime.Codegen.Backend

/-! A backend that knows by heart what each method refers to, and notes which methods it was asked
for. A method without a script refers to nothing. -/

namespace AheadOfTime

inductive Script where
  | compile (references : List Reference)
  | fail (e : BackendError)

/-- The methods asked for, in order. -/
structure CallLog where
  calls : List MethodId

namespace CallLog

def empty : CallLog := ⟨[]⟩

def total (l : CallLog) : Nat := l.calls.length

def count (l : CallLog) (m : MethodId) : Nat := l.calls.count m

end CallLog

namespace Script

/-- A return instruction, and a stand-in for a line table if debug information is wanted. -/
def code (settings : CodeSettings) : List UInt8 :=
  if settings.debugInfo then [0xc3, 0xcc] else [0xc3]

def run (settings : CodeSettings) : Option Script → Except BackendError MethodBody
  | some (.fail e) => .error e
  | some (.compile references) => .ok ⟨code settings, references⟩
  | none => .ok ⟨code settings, []⟩

/-- The last script for a method is the one that counts. -/
def backend (scripts : List (MethodId × Script)) : Backend CallLog where
  compile _ settings m log := (run settings (scripts.reverse.lookup m), ⟨log.calls ++ [m]⟩)

end Script

end AheadOfTime
