import AheadOfTime.CompilationUnit
import AheadOfTime.Node.Key

/-! Requests: what code or a node refers to, before the unit decides whether it is bound here or in
another unit. -/

namespace AheadOfTime

/-- Bytes of read-only data. -/
abbrev Blob := List UInt8

inductive Request where
  | methodEntrypoint (m : MethodId)
  | typeHandle (t : TypeId)
  | virtualMethodUse (m : MethodId)
  | methodDictionary (m : MethodId)
  | typeDictionary (t : TypeId)
  | externSymbol (name : String)
  | dataBlob (name : String) (data : Blob)
deriving DecidableEq

/-- A request together with why it is made. -/
structure Reference where
  target : Request
  reason : String
deriving DecidableEq

/-- The contents that a request brings with it. -/
def Request.data : Request → Option Blob
  | .dataBlob _ data => some data
  | _ => none

/-- The key that a request is bound to in a unit. -/
def CompilationUnit.bind (u : CompilationUnit) (w : World) : Request → Key
  | .methodEntrypoint m => if u.emitsMethod w m then .methodEntrypoint m else .externMethod m
  | .typeHandle t => if u.emitsType w t then .typeDescriptor t else .importedTypeDescriptor t
  | .virtualMethodUse m => .virtualMethodUse m
  | .methodDictionary m =>
    if u.emitsMethodDictionary w m then .methodDictionary m else .importedMethodDictionary m
  | .typeDictionary t =>
    if u.emitsTypeDictionary w t then .typeDictionary t else .importedTypeDictionary t
  | .externSymbol name => .externSymbol name
  | .dataBlob name _ => .dataBlob name

namespace World

/-- What a node refers to by virtue of its key alone. The body of a method adds to this. -/
def references (w : World) : Key → Except WorldError (List Reference)
  | .methodEntrypoint m => do
    let info ← w.methodInfo m
    return ⟨.typeHandle info.owner, "owning type"⟩ ::
      if info.args = [] then [] else [⟨.methodDictionary m, "generic dictionary"⟩]
  | .typeDescriptor t => do
    let info ← w.typeInfo t
    return info.base.toList.map (⟨.typeHandle ·, "base type"⟩) ++
      if info.args = [] then [] else [⟨.typeDictionary t, "generic dictionary"⟩]
  | .virtualMethodUse m => do
    let info ← w.methodInfo m
    return [⟨.typeHandle info.owner, "declaring type"⟩]
  | .methodDictionary m => do
    let info ← w.methodInfo m
    return info.args.map (⟨.typeHandle ·, "instantiation argument"⟩)
  | .typeDictionary t => do
    let info ← w.typeInfo t
    return info.args.map (⟨.typeHandle ·, "instantiation argument"⟩)
  | _ => .ok []

/-- The overrides that a node brings in once their slots are used. -/
def overridesOf (w : World) : Key → Except WorldError (List Override)
  | .typeDescriptor t => (w.typeInfo t).map (·.overrides)
  | _ => .ok []

end World

end AheadOfTime
