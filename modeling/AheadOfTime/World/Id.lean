/-! Handles of modules, types and methods: positions in the order of creation, kept apart by
their types. -/

namespace AheadOfTime

structure ModuleId where
  index : Nat
deriving DecidableEq

structure TypeId where
  index : Nat
deriving DecidableEq

structure MethodId where
  index : Nat
deriving DecidableEq

def ModuleId.label (m : ModuleId) : String := "module#" ++ toString m.index

def TypeId.label (t : TypeId) : String := "type#" ++ toString t.index

def MethodId.label (m : MethodId) : String := "method#" ++ toString m.index

end AheadOfTime
