/-! Json text of records and lists of strings, laid out over lines with an indent of two spaces. -/

namespace AheadOfTime.Text

inductive Json where
  | string (s : String)
  | list (items : List Json)
  | record (fields : List (String × Json))

namespace Json

/-- A character within a Json string. Controls are escaped, everything else stands for itself. -/
def escapedChar (c : Char) : List Char :=
  if c = '"' then ['\\', '"']
  else if c = '\\' then ['\\', '\\']
  else if c = '\x08' then ['\\', 'b']
  else if c = '\x0c' then ['\\', 'f']
  else if c = '\n' then ['\\', 'n']
  else if c = '\r' then ['\\', 'r']
  else if c = '\t' then ['\\', 't']
  else if c.toNat < 0x20 then
    ['\\', 'u', '0', '0', Nat.digitChar (c.toNat / 16), Nat.digitChar (c.toNat % 16)]
  else [c]

def escaped (s : String) : String :=
  String.ofList (['"'] ++ s.toList.flatMap escapedChar ++ ['"'])

def indent (depth : Nat) : String := "\n" ++ String.ofList (List.replicate (2 * depth) ' ')

mutual

/-- Json text whose continuation lines stand at `depth`. -/
def layout (depth : Nat) : Json → String
  | .string s => escaped s
  | .list [] => "[]"
  | .list (item :: items) =>
    "[" ++ indent (depth + 1) ++ layout (depth + 1) item ++ layoutItems (depth + 1) items
      ++ indent depth ++ "]"
  | .record [] => "\x7b\x7d"
  | .record ((name, value) :: fields) =>
    "\x7b" ++ indent (depth + 1) ++ escaped name ++ ": " ++ layout (depth + 1) value
      ++ layoutFields (depth + 1) fields ++ indent depth ++ "\x7d"

def layoutItems (depth : Nat) : List Json → String
  | [] => ""
  | item :: items => "," ++ indent depth ++ layout depth item ++ layoutItems depth items

def layoutFields (depth : Nat) : List (String × Json) → String
  | [] => ""
  | (name, value) :: fields =>
    "," ++ indent depth ++ escaped name ++ ": " ++ layout depth value ++ layoutFields depth fields

end

def pretty (j : Json) : String := layout 0 j

end Json

end AheadOfTime.Text
