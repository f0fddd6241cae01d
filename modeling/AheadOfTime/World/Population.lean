import AheadOfTime.World.DisplayName

/-! Populating a world. Every step either refuses and changes nothing or gives out a handle;
instantiating with the same arguments again gives out the same handle. -/

namespace AheadOfTime

inductive EntityId where
  | module (m : ModuleId)
  | type (t : TypeId)
  | method (m : MethodId)
deriving DecidableEq

def TypeInfo.withOverride (o : Override) (info : TypeInfo) : TypeInfo :=
  { info with overrides := info.overrides ++ [o] }

/-- A definition with its parameters bound. -/
def TypeInfo.close (info : TypeInfo) (i : Instantiation TypeId) : TypeInfo :=
  { info with parameters := 0, instantiation := some i }

def MethodInfo.close (info : MethodInfo) (i : Instantiation MethodId) : MethodInfo :=
  { info with parameters := 0, instantiation := some i }

namespace World

def addAssembly (w : World) (a : Assembly) : World × ModuleId :=
  ({ w with assemblies := w.assemblies.push a }, ⟨w.assemblies.size⟩)

/-- Adds a type whose arguments are there already. -/
def pushType (w : World) (info : TypeInfo) (h : ∀ a ∈ info.args, a.index < w.types.size) :
    World where
  assemblies := w.assemblies
  types := w.types.push info
  methods := w.methods
  typeInstances := w.typeInstances
  methodInstances := w.methodInstances
  args_before := by
    intro i hi
    rw [Array.getElem_push]
    split
    · exact w.args_before i _
    · rw [show i = w.types.size by rw [Array.size_push] at hi; omega]; exact h

def addType (w : World) (module : ModuleId) (scope name : String) (parameters : Nat)
    (base : Option TypeId) : Except WorldError (World × TypeId) := do
  let _ ← w.assembly module
  if let some b := base then
    let _ ← w.typeInfo b
  let info : TypeInfo :=
    { module, scope, name, parameters, base, instantiation := none, overrides := [] }
  return (w.pushType info (by simp [info, TypeInfo.args, Instantiation.argsOf]), ⟨w.types.size⟩)

def addMethod (w : World) (owner : TypeId) (name : String) (parameters : Nat)
    (isVirtual : Bool) : Except WorldError (World × MethodId) := do
  let _ ← w.typeInfo owner
  let info : MethodInfo := { owner, name, parameters, isVirtual, instantiation := none }
  return ({ w with methods := w.methods.push info }, ⟨w.methods.size⟩)

/-- Adds an override to the type at a position. -/
def pushOverride (w : World) (i : Nat) (o : Override) : World where
  assemblies := w.assemblies
  types := w.types.modify i (TypeInfo.withOverride o)
  methods := w.methods
  typeInstances := w.typeInstances
  methodInstances := w.methodInstances
  args_before := by
    intro j hj
    rw [Array.getElem_modify]
    split <;> exact w.args_before j (by simpa using hj)

/-- Puts a method into the virtual slot that another one introduced. -/
def addOverride (w : World) (t : TypeId) (o : Override) : Except WorldError World := do
  let declaration ← w.methodInfo o.declaration
  unless declaration.isVirtual do
    throw (.notVirtual (← w.methodName o.declaration))
  let _ ← w.methodInfo o.implementation
  let _ ← w.typeInfo t
  return w.pushOverride t.index o

/-- The first argument that is no type of the world. -/
def firstUnknown (w : World) (args : List TypeId) : Option TypeId :=
  args.find? fun a => decide (w.types.size ≤ a.index)

theorem firstUnknown_eq_none {w : World} {args : List TypeId} :
    w.firstUnknown args = none ↔ ∀ a ∈ args, a.index < w.types.size := by
  simp [firstUnknown]

/-- Puts arguments in for the parameters of a type definition. -/
def typeInstance (w : World) (definition : TypeId) (args : List TypeId) :
    Except WorldError (World × TypeId) := do
  let info ← w.typeInfo definition
  if info.instantiation.isSome || info.parameters = 0 then
    throw (.notGeneric (← w.typeName definition))
  if info.parameters ≠ args.length then
    throw (.arity (← w.typeName definition) info.parameters args.length)
  match h : w.firstUnknown args with
  | some a => throw (.noType a)
  | none =>
    match w.typeInstances.lookup ⟨definition, args⟩ with
    | some t => return (w, t)
    | none =>
      let t : TypeId := ⟨w.types.size⟩
      let w' := w.pushType (info.close ⟨definition, args⟩) (firstUnknown_eq_none.mp h)
      return ({ w' with typeInstances := (⟨definition, args⟩, t) :: w.typeInstances }, t)

/-- Puts arguments in for the parameters of a method definition. -/
def methodInstance (w : World) (definition : MethodId) (args : List TypeId) :
    Except WorldError (World × MethodId) := do
  let info ← w.methodInfo definition
  if info.instantiation.isSome || info.parameters = 0 then
    throw (.notGeneric (← w.methodName definition))
  if info.parameters ≠ args.length then
    throw (.arity (← w.methodName definition) info.parameters args.length)
  if let some a := w.firstUnknown args then
    throw (.noType a)
  match w.methodInstances.lookup ⟨definition, args⟩ with
  | some m => return (w, m)
  | none =>
    let m : MethodId := ⟨w.methods.size⟩
    return ({ w with methods := w.methods.push (info.close ⟨definition, args⟩),
                     methodInstances := (⟨definition, args⟩, m) :: w.methodInstances }, m)

end World

/-- A step of the population. -/
inductive Declaration where
  | module (a : Assembly)
  | type (module : ModuleId) (scope name : String) (parameters : Nat) (base : Option TypeId)
  | method (owner : TypeId) (name : String) (parameters : Nat) (isVirtual : Bool)
  | override (t : TypeId) (o : Override)
  | typeInstance (definition : TypeId) (args : List TypeId)
  | methodInstance (definition : MethodId) (args : List TypeId)

namespace World

/-- Takes one step; an override gives out no handle. -/
def declare (w : World) : Declaration → Except WorldError (World × Option EntityId)
  | .module a => .ok ((w.addAssembly a).1, some (.module (w.addAssembly a).2))
  | .type module scope name parameters base =>
    (w.addType module scope name parameters base).map fun r => (r.1, some (.type r.2))
  | .method owner name parameters isVirtual =>
    (w.addMethod owner name parameters isVirtual).map fun r => (r.1, some (.method r.2))
  | .override t o => (w.addOverride t o).map fun w' => (w', none)
  | .typeInstance definition args =>
    (w.typeInstance definition args).map fun r => (r.1, some (.type r.2))
  | .methodInstance definition args =>
    (w.methodInstance definition args).map fun r => (r.1, some (.method r.2))

/-- The world after a step; a refused step leaves it alone. -/
def after (w : World) (d : Declaration) : World :=
  match w.declare d with
  | .ok (w', _) => w'
  | .error _ => w

/-- The world that a list of steps makes of an empty one, refused steps skipped. -/
def populated (ds : List Declaration) : World := ds.foldl after empty

/-- Takes steps up to the first that is refused; `position` is that of the first step. -/
def declareAll (w : World) (position : Nat) : List Declaration → Except (Nat × WorldError) World
  | [] => .ok w
  | d :: ds =>
    match w.declare d with
    | .ok (w', _) => w'.declareAll (position + 1) ds
    | .error e => .error (position, e)

/-- The world that a list of steps makes of an empty one if none is refused, or the first refusal
and its position. -/
def build (ds : List Declaration) : Except (Nat × WorldError) World := empty.declareAll 0 ds

end World

end AheadOfTime
