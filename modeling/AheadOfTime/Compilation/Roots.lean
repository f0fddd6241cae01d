import AheadOfTime.Node.Program

/-! Roots: what is compiled whether or not anything refers to it. -/

namespace AheadOfTime

structure Root where
  node : NodeId
  reason : String
deriving DecidableEq

inductive RootSource where
  /-- The method where the program starts. -/
  | entryPoint (m : MethodId)
  /-- The surface of a library: what its module defines and what is not generic. -/
  | library (module : ModuleId)
  | explicit (references : List Reference)
  /-- Nodes by their handles, whether or not they exist. -/
  | nodes (roots : List Root)

namespace World

/-- The methods of a type that are neither generic nor instantiations. -/
def plainMethodsOf (w : World) (t : TypeId) : List MethodId :=
  (w.methodsOf t).filter fun m =>
    match w.methodInfo m with
    | .ok info => info.parameters = 0 && info.instantiation.isNone
    | .error _ => false

/-- The types of a module that are neither generic nor instantiations. -/
def plainTypesIn (w : World) (m : ModuleId) : List TypeId :=
  (w.typesIn m).filter fun t =>
    match w.typeInfo t with
    | .ok info => !info.isOpen && info.instantiation.isNone
    | .error _ => false

/-- Each plain type of a module, followed by its plain methods. -/
def libraryReferences (w : World) (m : ModuleId) : List Reference :=
  (w.plainTypesIn m).flatMap fun t =>
    ⟨.typeHandle t, "library type"⟩ ::
      (w.plainMethodsOf t).map (⟨.methodEntrypoint ·, "library method"⟩)

end World

namespace RootSource

/-- What a source asks to be resolved. -/
def references (w : World) : RootSource → List Reference
  | .entryPoint m => [⟨.methodEntrypoint m, "entry point"⟩]
  | .library m => w.libraryReferences m
  | .explicit references => references
  | .nodes _ => []

/-- What a source roots without asking. -/
def givenRoots : RootSource → List Root
  | .nodes roots => roots
  | _ => []

end RootSource

/-- Roots gathered so far, and the error that ended the gathering, if one did. -/
structure Gathered (β : Type) where
  roots : List Root
  error : Option NodeError
  store : Store β

namespace Program

variable {β : Type}

/-- Resolves references up to the first that fails. -/
def resolveRoots (p : Program β) : List Reference → Store β → Gathered β
  | [], s => ⟨[], none, s⟩
  | r :: rs, s =>
    match (p.resolve none r.target).run s with
    | (.error e, s) => ⟨[], some e, s⟩
    | (.ok n, s) =>
      let rest := p.resolveRoots rs s
      { rest with roots := ⟨n, r.reason⟩ :: rest.roots }

def provide (p : Program β) (source : RootSource) (s : Store β) : Gathered β :=
  let found := p.resolveRoots (source.references p.world) s
  { found with roots := source.givenRoots ++ found.roots }

/-- The roots of all sources, in order, up to the first that fails. -/
def gather (p : Program β) : List RootSource → Store β → Gathered β
  | [], s => ⟨[], none, s⟩
  | source :: sources, s =>
    let found := p.provide source s
    match found.error with
    | some _ => found
    | none =>
      let rest := p.gather sources found.store
      { rest with roots := found.roots ++ rest.roots }

end Program

end AheadOfTime
