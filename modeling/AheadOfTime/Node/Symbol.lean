import AheadOfTime.Node.Key
import AheadOfTime.World.Symbol

/-! Which keys a node may have, and the symbol of the node. -/

namespace AheadOfTime

/-- Why no node has a key. -/
inductive KeyFault where
  | unknown (e : WorldError)
  | openMethod
  | openType
  | notVirtual
  | notMethodInstance
  | notTypeInstance
  | emptySymbolName
  | emptyBlobName
  | noContents
  | otherContents
  | arenaFull
  | foreignNode
deriving DecidableEq

def KeyFault.message : KeyFault → String
  | .unknown e => e.message
  | .openMethod => "open generic method cannot be compiled"
  | .openType => "open generic type has no runtime representation"
  | .notVirtual => "method does not introduce a virtual slot"
  | .notMethodInstance => "method is not a generic instantiation"
  | .notTypeInstance => "type is not a generic instantiation"
  | .emptySymbolName => "extern symbol name is empty"
  | .emptyBlobName => "data blob name is empty"
  | .noContents => "no contents supplied for data blob"
  | .otherContents => "data blob already defined with different contents"
  | .arenaFull => "node arena is full"
  | .foreignNode => "node does not belong to this factory"

/-- Reads an answer of the world as one about keys. -/
def known {α : Type} (r : Except WorldError α) : Except KeyFault α := r.mapError .unknown

namespace World

def ensureClosedMethod (w : World) (m : MethodId) : Except KeyFault Unit := do
  if ← known (w.isOpenMethod m) then throw .openMethod

def ensureClosedType (w : World) (t : TypeId) : Except KeyFault Unit := do
  let info ← known (w.typeInfo t)
  if info.isOpen then throw .openType

def ensureVirtual (w : World) (m : MethodId) : Except KeyFault Unit := do
  let info ← known (w.methodInfo m)
  unless info.isVirtual do throw .notVirtual

def ensureMethodInstance (w : World) (m : MethodId) : Except KeyFault Unit := do
  w.ensureClosedMethod m
  let info ← known (w.methodInfo m)
  if info.args = [] then throw .notMethodInstance

def ensureTypeInstance (w : World) (t : TypeId) : Except KeyFault Unit := do
  w.ensureClosedType t
  let info ← known (w.typeInfo t)
  if info.args = [] then throw .notTypeInstance

/-- The symbol of a node with this key, if there may be one. A blob has to bring its contents. -/
def nodeSymbol (w : World) (hasData : Bool) : Key → Except KeyFault String
  | .methodEntrypoint m | .externMethod m => do
    w.ensureClosedMethod m
    known (w.methodSymbol m)
  | .typeDescriptor t => do
    w.ensureClosedType t
    known (w.descriptorSymbol t)
  | .importedTypeDescriptor t => do
    w.ensureClosedType t
    return Symbol.imported (← known (w.descriptorSymbol t))
  | .virtualMethodUse m => do
    w.ensureVirtual m
    known (w.virtualUseSymbol m)
  | .methodDictionary m => do
    w.ensureMethodInstance m
    known (w.methodDictionarySymbol m)
  | .importedMethodDictionary m => do
    w.ensureMethodInstance m
    return Symbol.imported (← known (w.methodDictionarySymbol m))
  | .typeDictionary t => do
    w.ensureTypeInstance t
    known (w.typeDictionarySymbol t)
  | .importedTypeDictionary t => do
    w.ensureTypeInstance t
    return Symbol.imported (← known (w.typeDictionarySymbol t))
  | .externSymbol name => if name = "" then .error .emptySymbolName else .ok name
  | .dataBlob name =>
    if name = "" then .error .emptyBlobName
    else if hasData then .ok name else .error .noContents

end World

end AheadOfTime
