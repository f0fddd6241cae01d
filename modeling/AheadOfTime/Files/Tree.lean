import AheadOfTime.Files.Path

/-! A tree of directories and text files. Writing makes the file or puts new contents in the place
of the old, and never makes a directory. -/

namespace AheadOfTime.Files

/-- Directories other than the root, and files, by the names that lead to them. -/
structure Tree where
  directories : List (List String)
  files : List (List String × String)

inductive WriteError where
  | zeroByte
  | notFound
  | notDirectory
  | isDirectory
  | nameTooLong
deriving DecidableEq

def WriteError.message : WriteError → String
  | .zeroByte => "file name contained an unexpected NUL byte"
  | .notFound => "No such file or directory (os error 2)"
  | .notDirectory => "Not a directory (os error 20)"
  | .isDirectory => "Is a directory (os error 21)"
  | .nameTooLong => "File name too long (os error 36)"

/-- The most bytes that a name may have. -/
def longestName : Nat := 255

/-- The most bytes that a path may have. -/
def longestPath : Nat := 4095

namespace Tree

def isDirectory (t : Tree) (place : List String) : Bool := place = [] || place ∈ t.directories

def isFile (t : Tree) (place : List String) : Bool := t.files.any (·.1 = place)

/-- One step on the way to a file. The root is its own parent. -/
def enter (t : Tree) (place : List String) (name : String) : Except WriteError (List String) :=
  if name = "." then .ok place
  else if name = ".." then .ok place.dropLast
  else if longestName < name.utf8ByteSize then .error .nameTooLong
  else if t.isDirectory (place ++ [name]) then .ok (place ++ [name])
  else if t.isFile (place ++ [name]) then .error .notDirectory
  else .error .notFound

/-- The place of the file that a path names for writing, whether or not it is there yet. -/
def locate (t : Tree) (p : Path) : Except WriteError (List String) :=
  if '\x00' ∈ p.text.toList then .error .zeroByte
  else if p.text = "" then .error .notFound
  else if longestPath < p.text.utf8ByteSize then .error .nameTooLong
  else match p.names.getLast? with
    | none => .error .isDirectory
    | some name =>
      match p.names.dropLast.foldlM t.enter [] with
      | .error e => .error e
      | .ok place =>
        if name = "." || name = ".." || p.endsInSlash then .error .isDirectory
        else if longestName < name.utf8ByteSize then .error .nameTooLong
        else if t.isDirectory (place ++ [name]) then .error .isDirectory
        else .ok (place ++ [name])

def put (t : Tree) (place : List String) (contents : String) : Tree :=
  { t with files := t.files.filter (·.1 ≠ place) ++ [(place, contents)] }

def write (t : Tree) (p : Path) (contents : String) : Except WriteError Tree :=
  (t.locate p).map fun place => t.put place contents

/-- The contents of the file that a path names. -/
def read? (t : Tree) (p : Path) : Option String :=
  match t.locate p with
  | .ok place => t.files.lookup place
  | .error _ => none

/-- All files, by path. -/
def listing (t : Tree) : List (String × String) :=
  (t.files.map fun f => ("/".intercalate f.1, f.2)).mergeSort fun a b => decide (a.1 ≤ b.1)

end Tree

end AheadOfTime.Files
