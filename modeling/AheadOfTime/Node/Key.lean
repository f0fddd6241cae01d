import AheadOfTime.Text.Quoted
import AheadOfTime.World.DisplayName

/-! Keys: what a node is of. There is one node for each key. -/

namespace AheadOfTime

inductive Key where
  /-- The code of a method that this unit compiles. -/
  | methodEntrypoint (m : MethodId)
  /-- A method of another unit, bound at link time. -/
  | externMethod (m : MethodId)
  /-- The runtime descriptor of a type that this unit lays out. -/
  | typeDescriptor (t : TypeId)
  /-- The import cell of a descriptor of another unit. -/
  | importedTypeDescriptor (t : TypeId)
  /-- The virtual slot that a method introduces is called somewhere. -/
  | virtualMethodUse (m : MethodId)
  | methodDictionary (m : MethodId)
  | typeDictionary (t : TypeId)
  | importedMethodDictionary (m : MethodId)
  | importedTypeDictionary (t : TypeId)
  | externSymbol (name : String)
  | dataBlob (name : String)
deriving DecidableEq

/-- What a key is about. -/
inductive Entity where
  | method (m : MethodId)
  | type (t : TypeId)
  | symbol (name : String)
deriving DecidableEq

namespace Entity

def label : Entity → String
  | .method m => m.label
  | .type t => t.label
  | .symbol name => Text.quoted name

/-- The name for people, of methods and types that the world has. -/
def displayName (w : World) : Entity → Option String
  | .method m => (w.methodName m).toOption
  | .type t => (w.typeName t).toOption
  | .symbol _ => none

/-- Handles by number, names by character; entities of different sorts are not compared. -/
def le : Entity → Entity → Bool
  | .method m, .method n => m.index ≤ n.index
  | .type t, .type u => t.index ≤ u.index
  | .symbol s, .symbol t => decide (s ≤ t)
  | _, _ => true

end Entity

namespace Key

def entity : Key → Entity
  | .methodEntrypoint m | .externMethod m | .virtualMethodUse m | .methodDictionary m
  | .importedMethodDictionary m => .method m
  | .typeDescriptor t | .importedTypeDescriptor t | .typeDictionary t
  | .importedTypeDictionary t => .type t
  | .externSymbol name | .dataBlob name => .symbol name

def kind : Key → String
  | .methodEntrypoint _ => "MethodEntrypoint"
  | .externMethod _ => "ExternMethod"
  | .typeDescriptor _ => "TypeDescriptor"
  | .importedTypeDescriptor _ => "ImportedTypeDescriptor"
  | .virtualMethodUse _ => "VirtualMethodUse"
  | .methodDictionary _ => "MethodGenericDictionary"
  | .typeDictionary _ => "TypeGenericDictionary"
  | .importedMethodDictionary _ => "ImportedMethodGenericDictionary"
  | .importedTypeDictionary _ => "ImportedTypeGenericDictionary"
  | .externSymbol _ => "ExternSymbol"
  | .dataBlob _ => "ReadOnlyDataBlob"

/-- The place of its kind in the order of keys. -/
def rank : Key → Nat
  | .methodEntrypoint _ => 0
  | .externMethod _ => 1
  | .typeDescriptor _ => 2
  | .importedTypeDescriptor _ => 3
  | .virtualMethodUse _ => 4
  | .methodDictionary _ => 5
  | .typeDictionary _ => 6
  | .importedMethodDictionary _ => 7
  | .importedTypeDictionary _ => 8
  | .externSymbol _ => 9
  | .dataBlob _ => 10

def le (a b : Key) : Bool :=
  if a.rank = b.rank then a.entity.le b.entity else a.rank < b.rank

/-- Import cells are loaded through one more indirection. -/
def isImportCell : Key → Bool
  | .importedTypeDescriptor _ | .importedMethodDictionary _ | .importedTypeDictionary _ => true
  | _ => false

/-- Nodes of the same contents may share their storage. -/
def isShareable : Key → Bool
  | .dataBlob _ => true
  | _ => false

def label (k : Key) : String := k.kind ++ "(" ++ k.entity.label ++ ")"

/-- The kind with the name of the entity, or with its handle if it has none. -/
def describe (w : World) (k : Key) : String :=
  match k.entity.displayName w with
  | some name => k.kind ++ "(" ++ name ++ ")"
  | none => k.label

end Key

end AheadOfTime
