import AheadOfTime.World.Tree

/-! Compilation units: what of the program is emitted here. Everything else is bound to symbols of
other units at link time. Main statement: a type is within some modules just when all modules that
its tree mentions are among them (`isWithin_eq_all_modules`). -/

namespace AheadOfTime

mutual

/-- The modules that a type and its arguments, at any depth, come from. -/
def TypeTree.modules : TypeTree → List ModuleId
  | .node label args => label.module :: modulesOfAll args

def modulesOfAll : List TypeTree → List ModuleId
  | [] => []
  | t :: ts => t.modules ++ modulesOfAll ts

end

def MethodTree.modules (m : MethodTree) : List ModuleId := m.owner.modules ++ modulesOfAll m.args

namespace World

/-- Whether a type is within the listed modules if `known` tells this of its arguments. -/
def isWithinGiven (ids : List ModuleId) (known : TypeId → Bool) (info : TypeInfo) : Bool :=
  decide (info.module ∈ ids) && info.args.all known

/-- Which of the first `n` types are within the listed modules. Arguments come before the types
that take them, so each type is looked at once however often it is shared. -/
def withinTable (w : World) (ids : List ModuleId) : Nat → Array Bool
  | 0 => #[]
  | n + 1 =>
    let known := w.withinTable ids n
    known.push <| match w.typeInfo ⟨n⟩ with
      | .ok info => isWithinGiven ids (fun a => known[a.index]?.getD false) info
      | .error _ => false

/-- Whether a type and its arguments, at any depth, come from the listed modules alone. -/
def isWithin (w : World) (ids : List ModuleId) (t : TypeId) : Bool :=
  (w.withinTable ids w.types.size)[t.index]?.getD false

theorem size_withinTable (w : World) (ids : List ModuleId) (n : Nat) :
    (w.withinTable ids n).size = n := by
  induction n with
  | zero => rfl
  | succ n ih => simp [withinTable, ih]

theorem withinTable_getElem?_add (w : World) (ids : List ModuleId) {i n : Nat} (h : i < n)
    (k : Nat) : (w.withinTable ids (n + k))[i]? = (w.withinTable ids n)[i]? := by
  induction k with
  | zero => rfl
  | succ k ih =>
    rw [← Nat.add_assoc, withinTable, Array.getElem?_push, size_withinTable, if_neg (by omega), ih]

theorem withinTable_getElem?_eq (w : World) (ids : List ModuleId) {i n m : Nat} (hn : i < n)
    (hm : n ≤ m) : (w.withinTable ids n)[i]? = (w.withinTable ids m)[i]? := by
  rw [← Nat.add_sub_of_le hm, withinTable_getElem?_add w ids hn]

theorem isWithin_eq {w : World} {t : TypeId} {info : TypeInfo} (h : w.typeInfo t = .ok info)
    (ids : List ModuleId) : w.isWithin ids t = isWithinGiven ids (w.isWithin ids) info := by
  have ht := (Array.getElem?_eq_some_iff.mp (typeInfo_eq_ok.mp h)).1
  have hargs : ∀ a ∈ info.args,
      (w.withinTable ids t.index)[a.index]?.getD false = w.isWithin ids a := fun a ha => by
    rw [isWithin, withinTable_getElem?_eq w ids (args_lt h a ha) (Nat.le_of_lt ht)]
  rw [isWithin, ← withinTable_getElem?_eq w ids (Nat.lt_succ_self _) ht, withinTable,
    Array.getElem?_push, size_withinTable, if_pos rfl]
  simp only [h, Option.getD_some, isWithinGiven]
  congr 1
  rw [Bool.eq_iff_iff, List.all_eq_true, List.all_eq_true]
  exact forall₂_congr fun a ha => by rw [hargs a ha]

theorem isWithin_eq_false {w : World} {t : TypeId} {e : WorldError} (h : w.typeInfo t = .error e)
    (ids : List ModuleId) : w.isWithin ids t = false := by
  rw [isWithin]
  rw [typeInfo] at h
  split at h
  · cases h
  · rename_i hnone
    rw [Array.getElem?_eq_none (by rw [size_withinTable]; simpa using hnone)]
    rfl

theorem all_isWithin_eq {w : World} {ids : List ModuleId} {ts : List TypeId}
    (ih : ∀ a ∈ ts, ∀ tree, w.tree a = .ok tree → w.isWithin ids a = tree.modules.all (· ∈ ids))
    {trees : List TypeTree} (h : w.trees ts = .ok trees) :
    ts.all (w.isWithin ids) = (modulesOfAll trees).all (· ∈ ids) := by
  induction ts generalizing trees with
  | nil => cases h; rfl
  | cons a ts ih' =>
    rw [World.trees, List.mapM_cons] at h
    cases ha : w.tree a with
    | error e => rw [ha] at h; cases h
    | ok tree =>
      cases hts : w.trees ts with
      | error e => rw [ha, ← World.trees, hts] at h; cases h
      | ok rest =>
        rw [ha, ← World.trees, hts] at h
        cases h
        rw [List.all_cons, ih a List.mem_cons_self tree ha,
          ih' (fun b hb => ih b (List.mem_cons_of_mem a hb)) hts, modulesOfAll, List.all_append]

theorem isWithin_eq_all_modules {w : World} {t : TypeId} {tree : TypeTree}
    (h : w.tree t = .ok tree) (ids : List ModuleId) :
    w.isWithin ids t = tree.modules.all (· ∈ ids) := by
  induction hn : t.index using Nat.strongRecOn generalizing t tree with
  | ind n ih =>
    cases hinfo : w.typeInfo t with
    | error e => rw [tree_eq_error hinfo] at h; cases h
    | ok info =>
      rw [tree_eq hinfo] at h
      cases hl : w.label info with
      | error e => rw [hl] at h; cases h
      | ok l =>
        cases hts : w.trees info.args with
        | error e => rw [hl, hts] at h; cases h
        | ok trees =>
          rw [hl, hts] at h
          cases h
          rw [isWithin_eq hinfo, isWithinGiven, TypeTree.modules, List.all_cons, module_of_label hl]
          congr 1
          refine all_isWithin_eq (fun a ha tree htree => ?_) hts
          exact ih a.index (hn ▸ args_lt hinfo a ha) htree rfl

end World

/-- A unit that is given by what it contains. -/
structure Selection where
  type : TypeId → Bool
  method : MethodId → Bool
  typeDictionary : TypeId → Bool
  methodDictionary : MethodId → Bool

inductive CompilationUnit where
  | wholeProgram
  /-- Contains what comes from the listed modules alone, instantiation arguments included. -/
  | modules (ids : List ModuleId)
  | selection (s : Selection)

namespace CompilationUnit

def emitsType (w : World) (t : TypeId) : CompilationUnit → Bool
  | .wholeProgram => true
  | .modules ids => w.isWithin ids t
  | .selection s => s.type t

def emitsMethod (w : World) (m : MethodId) : CompilationUnit → Bool
  | .wholeProgram => true
  | .modules ids =>
    match w.methodInfo m with
    | .ok info => w.isWithin ids info.owner && info.args.all (w.isWithin ids)
    | .error _ => false
  | .selection s => s.method m

def emitsTypeDictionary (w : World) (t : TypeId) : CompilationUnit → Bool
  | .selection s => s.typeDictionary t
  | u => u.emitsType w t

def emitsMethodDictionary (w : World) (m : MethodId) : CompilationUnit → Bool
  | .selection s => s.methodDictionary m
  | u => u.emitsMethod w m

def isWholeProgram : CompilationUnit → Bool
  | .wholeProgram => true
  | _ => false

end CompilationUnit

end AheadOfTime
