import AheadOfTime.World.Basic

/-! Types written out: the tree of an instantiation holds its arguments in full, so that names,
symbols and containment are functions of trees. -/

namespace AheadOfTime

/-- What a type says of itself, its arguments apart. -/
structure TypeLabel where
  module : ModuleId
  assembly : String
  scope : String
  name : String
  parameters : Nat

inductive TypeTree where
  | node (label : TypeLabel) (args : List TypeTree)

structure MethodTree where
  owner : TypeTree
  name : String
  args : List TypeTree

namespace World

def label (w : World) (info : TypeInfo) : Except WorldError TypeLabel :=
  (w.assembly info.module).map fun a =>
    { module := info.module, assembly := a.identity.name, scope := info.scope, name := info.name,
      parameters := info.parameters }

theorem module_of_label {w : World} {info : TypeInfo} {l : TypeLabel} (h : w.label info = .ok l) :
    l.module = info.module := by
  rw [label] at h
  cases ha : w.assembly info.module with
  | error e => rw [ha] at h; cases h
  | ok a => rw [ha] at h; cases h; rfl

/-- A type with its arguments written out. -/
def tree (w : World) (t : TypeId) : Except WorldError TypeTree :=
  match _h : w.typeInfo t with
  | .error e => .error e
  | .ok info => do
    let label ← w.label info
    let args ← info.args.attach.mapM fun a => tree w a.1
    return .node label args
termination_by t.index
decreasing_by exact args_lt _h _ a.2

def trees (w : World) (ts : List TypeId) : Except WorldError (List TypeTree) := ts.mapM w.tree

theorem tree_eq_error {w : World} {t : TypeId} {e : WorldError} (h : w.typeInfo t = .error e) :
    w.tree t = .error e := by
  rw [tree]; split <;> simp_all

theorem tree_eq {w : World} {t : TypeId} {info : TypeInfo} (h : w.typeInfo t = .ok info) :
    w.tree t = (do
      let label ← w.label info
      let args ← w.trees info.args
      return .node label args) := by
  rw [tree]
  split
  · simp_all
  · rename_i info' h'
    obtain rfl : info' = info := by simp_all
    have := List.mapM_subtype (l := info'.args.attach) (m := Except WorldError)
      (f := fun a => w.tree a.1) (g := w.tree) (fun _ _ => rfl)
    simp_all [trees]

def methodTree (w : World) (m : MethodId) : Except WorldError MethodTree := do
  let info ← w.methodInfo m
  let owner ← w.tree info.owner
  let args ← w.trees info.args
  return ⟨owner, info.name, args⟩

end World

end AheadOfTime
