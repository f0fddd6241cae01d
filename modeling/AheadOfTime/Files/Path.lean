/-! Paths as text: their components, when two of them are written alike, and the extension that
chooses a format. Nothing here looks at a file. -/

namespace AheadOfTime.Files

structure Path where
  text : String
deriving DecidableEq

/-- The parts between slashes, empty ones included. -/
def slashParts : List Char → List (List Char)
  | [] => [[]]
  | c :: cs =>
    if c = '/' then [] :: slashParts cs
    else match slashParts cs with
      | [] => [[c]]
      | part :: parts => (c :: part) :: parts

/-- The names on the way, left to right; a doubled slash adds none. -/
def Path.names (p : Path) : List String :=
  ((slashParts p.text.toList).filter (· ≠ [])).map String.ofList

def Path.isAbsolute (p : Path) : Bool := p.text.toList.head? = some '/'

def Path.endsInSlash (p : Path) : Bool := p.text.toList.getLast? = some '/'

inductive Component where
  | root
  | here
  | parent
  | name (s : String)
deriving DecidableEq

/-- Of the dots on the way only a leading one of a relative path is a component. -/
def Component.ofName? (s : String) : Option Component :=
  if s = "." then none else if s = ".." then some .parent else some (.name s)

def Path.components (p : Path) : List Component :=
  let rest := p.names.filterMap Component.ofName?
  if p.isAbsolute then .root :: rest
  else if p.names.head? = some "." then .here :: rest
  else rest

/-- Two paths are written alike when their components are; no `..` is resolved. -/
def Path.alike (p q : Path) : Bool := p.components = q.components

/-- What follows the last dot of a name, unless the dot begins it. -/
def extensionOf (name : List Char) : Option (List Char) :=
  let tail := name.reverse.takeWhile (· ≠ '.')
  match name.reverse.dropWhile (· ≠ '.') with
  | _ :: _ :: _ => some tail.reverse
  | _ => none

def Path.extension? (p : Path) : Option String :=
  match p.components.getLast? with
  | some (.name s) => (extensionOf s.toList).map String.ofList
  | _ => none

end AheadOfTime.Files
