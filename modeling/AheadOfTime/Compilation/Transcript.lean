import AheadOfTime.Text.Lossy

/-! Transcripts: what a compilation says on request, line by line. They hold bytes, since others
may write to them too. -/

namespace AheadOfTime

inductive Transcript where
  /-- Forgets everything. -/
  | silent
  | kept (bytes : List UInt8)

namespace Transcript

def empty : Transcript := .kept []

def isVerbose : Transcript → Bool
  | .silent => false
  | .kept _ => true

def write (t : Transcript) (bytes : List UInt8) : Transcript :=
  match t with
  | .silent => .silent
  | .kept before => .kept (before ++ bytes)

/-- Adds a line. -/
def say (t : Transcript) (line : String) : Transcript := t.write (line ++ "\n").toUTF8.toList

/-- Everything said so far, read as text. -/
def contents : Transcript → String
  | .silent => ""
  | .kept bytes => Text.lossy bytes

def describe (t : Transcript) : String :=
  "Logger \x7b verbose: " ++ toString t.isVerbose ++ " \x7d"

end Transcript

end AheadOfTime
