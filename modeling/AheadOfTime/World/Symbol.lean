import AheadOfTime.World.Tree

/-! Symbols: the names by which a linker knows types and methods. A symbol is a function of the
identity alone (assembly, namespace, name, arguments), so that units compiled apart agree on it.
Within a name letters, digits and `_` stand for themselves and everything else is escaped by `$`,
which also begins each mark of the structure. -/

namespace AheadOfTime

/-- What a type is, apart from the world that it was found in. -/
inductive TypeIdentity where
  | mk (assembly scope name : String) (args : List TypeIdentity)

structure MethodIdentity where
  owner : TypeIdentity
  name : String
  args : List TypeIdentity

mutual

def TypeTree.identity : TypeTree → TypeIdentity
  | .node label args => .mk label.assembly label.scope label.name (identities args)

def identities : List TypeTree → List TypeIdentity
  | [] => []
  | t :: ts => t.identity :: identities ts

end

def MethodTree.identity (m : MethodTree) : MethodIdentity :=
  ⟨m.owner.identity, m.name, identities m.args⟩

namespace Symbol

def escapedChar (c : Char) : List Char :=
  if c.isAlphanum || c = '_' then [c]
  else if c = '.' then ['$', '_']
  else if c = '<' then ['$', 'l', 't']
  else if c = '>' then ['$', 'g', 't']
  else if c = ',' then ['$', 'c', 'm']
  else if c = '[' then ['$', 'l', 'b']
  else if c = ']' then ['$', 'r', 'b']
  else if c = '(' then ['$', 'l', 'p']
  else if c = ')' then ['$', 'r', 'p']
  else if c = ':' then ['$', 'c', 'l']
  else if c = '-' then ['$', 'd']
  else ['$', 'u'] ++ Nat.toDigits 16 c.toNat ++ ['$']

/-- A name as it stands in a symbol. -/
def escaped (name : List Char) : List Char := name.flatMap escapedChar

def scopeMark : List Char := ['$', 'N']

def nameMark : List Char := ['$', '$']

def openMark : List Char := ['$', 'L', 'T']

def separatorMark : List Char := ['$', 'C']

def closeMark : List Char := ['$', 'G', 'T']

def descriptorMark : List Char := ['$', 'E', 'E', 'T', 'y', 'p', 'e']

mutual

def typeBody : TypeIdentity → List Char
  | .mk assembly scope name args =>
    escaped assembly.toList ++ (if scope = "" then [] else scopeMark ++ escaped scope.toList)
      ++ nameMark ++ escaped name.toList ++ argsBody args

def argsBody : List TypeIdentity → List Char
  | [] => []
  | t :: ts => openMark ++ typeBody t ++ restBody ts ++ closeMark

def restBody : List TypeIdentity → List Char
  | [] => []
  | t :: ts => separatorMark ++ typeBody t ++ restBody ts

end

def methodBody (m : MethodIdentity) : List Char :=
  typeBody m.owner ++ nameMark ++ escaped m.name.toList ++ argsBody m.args

/-- Begins every symbol of a type or method. -/
def lead : String := "_ilc_"

def importLead : String := "__imp_"

def methodDictionaryLead : String := "__GenericDict_"

def typeDictionaryLead : String := "__TypeGenericDict_"

def virtualUseLead : String := "VirtualMethodUse_"

def ofType (t : TypeIdentity) : String := lead ++ String.ofList (typeBody t)

def ofMethod (m : MethodIdentity) : String := lead ++ String.ofList (methodBody m)

def ofDescriptor (t : TypeIdentity) : String := ofType t ++ String.ofList descriptorMark

def ofTypeDictionary (t : TypeIdentity) : String := typeDictionaryLead ++ ofType t

def ofMethodDictionary (m : MethodIdentity) : String := methodDictionaryLead ++ ofMethod m

def ofVirtualUse (m : MethodIdentity) : String := virtualUseLead ++ ofMethod m

/-- The cell through which a symbol of another unit is reached. -/
def imported (symbol : String) : String := importLead ++ symbol

end Symbol

namespace World

def typeIdentity (w : World) (t : TypeId) : Except WorldError TypeIdentity :=
  (w.tree t).map TypeTree.identity

def methodIdentity (w : World) (m : MethodId) : Except WorldError MethodIdentity :=
  (w.methodTree m).map MethodTree.identity

def typeSymbol (w : World) (t : TypeId) : Except WorldError String :=
  (w.typeIdentity t).map Symbol.ofType

def methodSymbol (w : World) (m : MethodId) : Except WorldError String :=
  (w.methodIdentity m).map Symbol.ofMethod

def descriptorSymbol (w : World) (t : TypeId) : Except WorldError String :=
  (w.typeIdentity t).map Symbol.ofDescriptor

def typeDictionarySymbol (w : World) (t : TypeId) : Except WorldError String :=
  (w.typeIdentity t).map Symbol.ofTypeDictionary

def methodDictionarySymbol (w : World) (m : MethodId) : Except WorldError String :=
  (w.methodIdentity m).map Symbol.ofMethodDictionary

def virtualUseSymbol (w : World) (m : MethodId) : Except WorldError String :=
  (w.methodIdentity m).map Symbol.ofVirtualUse

end World

end AheadOfTime
