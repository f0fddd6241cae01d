import AheadOfTime.World.Assembly
import AheadOfTime.World.Id

/-! The world of a compilation: its modules, types and methods in the order of their creation,
and the instantiations made so far. -/

namespace AheadOfTime

/-- A generic definition with the arguments put in for its parameters. -/
structure Instantiation (ι : Type) where
  definition : ι
  args : List TypeId
deriving DecidableEq

/-- The method that a type puts into a virtual slot, and the method that introduced the slot. -/
structure Override where
  declaration : MethodId
  implementation : MethodId
deriving DecidableEq

structure TypeInfo where
  module : ModuleId
  /-- The namespace, empty for the global one. -/
  scope : String
  name : String
  /-- How many type parameters are unbound. -/
  parameters : Nat
  instantiation : Option (Instantiation TypeId)
  base : Option TypeId
  overrides : List Override

structure MethodInfo where
  owner : TypeId
  name : String
  /-- How many type parameters of its own are unbound. -/
  parameters : Nat
  instantiation : Option (Instantiation MethodId)
  isVirtual : Bool

def Instantiation.argsOf {ι : Type} : Option (Instantiation ι) → List TypeId
  | some i => i.args
  | none => []

def TypeInfo.isOpen (t : TypeInfo) : Bool := 0 < t.parameters

def TypeInfo.args (t : TypeInfo) : List TypeId := Instantiation.argsOf t.instantiation

def MethodInfo.args (m : MethodInfo) : List TypeId := Instantiation.argsOf m.instantiation

inductive WorldError where
  | noModule (m : ModuleId)
  | noType (t : TypeId)
  | noMethod (m : MethodId)
  | arity (name : String) (expected found : Nat)
  | notGeneric (name : String)
  | notVirtual (name : String)
deriving DecidableEq

def WorldError.message : WorldError → String
  | .noModule m => "unknown " ++ m.label
  | .noType t => "unknown " ++ t.label
  | .noMethod m => "unknown " ++ m.label
  | .arity name expected found =>
    "`" ++ name ++ "` expects " ++ toString expected ++ " type argument(s), found " ++
      toString found
  | .notGeneric name => "`" ++ name ++ "` is not a generic definition"
  | .notVirtual name => "`" ++ name ++ "` is not virtual"

/-- Handles are positions in the three arrays. A type is made after its arguments, so that types
can be taken apart by recursion. -/
structure World where
  assemblies : Array Assembly
  types : Array TypeInfo
  methods : Array MethodInfo
  typeInstances : List (Instantiation TypeId × TypeId)
  methodInstances : List (Instantiation MethodId × MethodId)
  args_before : ∀ (i : Nat) (h : i < types.size), ∀ a ∈ types[i].args, a.index < i

namespace World

def empty : World where
  assemblies := #[]
  types := #[]
  methods := #[]
  typeInstances := []
  methodInstances := []
  args_before := fun _ h => absurd h (Nat.not_lt_zero _)

def assembly (w : World) (m : ModuleId) : Except WorldError Assembly :=
  match w.assemblies[m.index]? with
  | some a => .ok a
  | none => .error (.noModule m)

def typeInfo (w : World) (t : TypeId) : Except WorldError TypeInfo :=
  match w.types[t.index]? with
  | some info => .ok info
  | none => .error (.noType t)

def methodInfo (w : World) (m : MethodId) : Except WorldError MethodInfo :=
  match w.methods[m.index]? with
  | some info => .ok info
  | none => .error (.noMethod m)

theorem typeInfo_eq_ok {w : World} {t : TypeId} {info : TypeInfo} :
    w.typeInfo t = .ok info ↔ w.types[t.index]? = some info := by
  unfold typeInfo; split <;> simp_all

theorem args_lt {w : World} {t : TypeId} {info : TypeInfo} (h : w.typeInfo t = .ok info) :
    ∀ a ∈ info.args, a.index < t.index := by
  obtain ⟨hi, rfl⟩ := Array.getElem?_eq_some_iff.mp (typeInfo_eq_ok.mp h)
  exact w.args_before _ hi

/-- The module that defines a type; for an instantiation, that of its definition. -/
def moduleOf (w : World) (t : TypeId) : Except WorldError ModuleId :=
  (w.typeInfo t).map (·.module)

/-- A method is open while it or the type it belongs to has unbound parameters. -/
def isOpenMethod (w : World) (m : MethodId) : Except WorldError Bool := do
  let method ← w.methodInfo m
  if 0 < method.parameters then return true
  let owner ← w.typeInfo method.owner
  return owner.isOpen

def modules (w : World) : List ModuleId := (List.range w.assemblies.size).map ModuleId.mk

/-- The types of a module, instantiations included, in the order of creation. -/
def typesIn (w : World) (m : ModuleId) : List TypeId :=
  (w.types.toList.zipIdx.filter (·.1.module = m)).map fun entry => ⟨entry.2⟩

/-- The methods of a type, instantiations included, in the order of creation. -/
def methodsOf (w : World) (t : TypeId) : List MethodId :=
  (w.methods.toList.zipIdx.filter (·.1.owner = t)).map fun entry => ⟨entry.2⟩

end World

end AheadOfTime
