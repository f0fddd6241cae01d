import AheadOfTime.CompilationUnit
import AheadOfTime.Proofs.World.Steps
import AheadOfTime.World.Symbol

/-! Going down from types to their arguments. Here names, symbols and containment are told by calls
that go from handle to handle and say how deep calls may be nested within them; a call that may not
go deep enough comes to nothing. No call has to go deeper than there are types
(`descend_eq_of_size_lt`, `isWithinTo_eq_of_size_lt`), and what comes of it is what is told of the
tree of a type. -/

namespace AheadOfTime

/-- Calls that may fail, and that come to nothing (`none`) if they are nested too deep. -/
abbrev Bounded (ε α : Type) := ExceptT ε Option α

namespace Bounded

variable {ε α β : Type}

/-- What needs no nested call. -/
def now (x : Except ε α) : Bounded ε α := ExceptT.mk (some x)

theorem now_inj {x y : Except ε α} (h : now x = now y) : x = y := Option.some.inj h

theorem now_ok_bind (a : α) (f : α → Bounded ε β) : now (.ok a) >>= f = f a := rfl

theorem now_bind (x : Except ε α) (f : α → Bounded ε β) (g : α → Except ε β)
    (h : ∀ a, x = .ok a → f a = now (g a)) : now x >>= f = now (x >>= g) := by
  cases x with
  | error e => rfl
  | ok a => exact h a rfl

theorem map_now (f : α → β) (x : Except ε α) : f <$> now x = now (x.map f) := by
  cases x <;> rfl

theorem mapM_now {f : α → Bounded ε β} {g : α → Except ε β} {xs : List α}
    (h : ∀ x ∈ xs, f x = now (g x)) : xs.mapM f = now (xs.mapM g) := by
  induction xs with
  | nil => rfl
  | cons x xs ih =>
    rw [List.mapM_cons, List.mapM_cons, h x List.mem_cons_self,
      ih fun y hy => h y (List.mem_cons_of_mem x hy)]
    refine now_bind _ _ _ fun y _ => ?_
    exact now_bind _ _ _ fun ys _ => rfl

end Bounded

namespace World

variable {α γ : Type} {w : World} {make : TypeLabel → List α → α} {f : TypeTree → α}

/-- Makes something of a type, of its label and of what is made of its arguments. -/
def descend (w : World) (make : TypeLabel → List α → α) : Nat → TypeId → Bounded WorldError α
  | 0, _ => ExceptT.mk none
  | depth + 1, t => do
    let info ← .now (w.typeInfo t)
    let label ← .now (w.label info)
    let parts ← info.args.mapM (w.descend make depth)
    return make label parts

/-- Makes something of a method, of what is made of its type and of its arguments. -/
def descendMethod (w : World) (make : TypeLabel → List α → α) (finish : α → String → List α → γ)
    (depth : Nat) (m : MethodId) : Bounded WorldError γ := do
  let info ← .now (w.methodInfo m)
  let owner ← w.descend make depth info.owner
  let args ← info.args.mapM (w.descend make depth)
  return finish owner info.name args

/-- What `f` tells of a tree is made of what it tells of the arguments. -/
def Folds (make : TypeLabel → List α → α) (f : TypeTree → α) : Prop :=
  ∀ label args, f (.node label args) = make label (args.map f)

theorem map_tree_eq (hf : Folds make f) {t : TypeId} {info : TypeInfo}
    (h : w.typeInfo t = .ok info) : (w.tree t).map f = (do
      let label ← w.label info
      let parts ← info.args.mapM fun a => (w.tree a).map f
      return make label parts) := by
  rw [tree_eq h, Except.mapM_map, trees]
  cases w.label info with
  | error e => rfl
  | ok label =>
    cases info.args.mapM w.tree with
    | error e => rfl
    | ok args => exact congrArg Except.ok (hf label args)

/-- A type needs no more depth than its own position, since its arguments were made before it. -/
theorem descend_eq (hf : Folds make f) {depth : Nat} {t : TypeId} (h : t.index < depth) :
    w.descend make depth t = .now ((w.tree t).map f) := by
  induction depth generalizing t with
  | zero => exact absurd h (Nat.not_lt_zero _)
  | succ depth ih =>
    rw [descend]
    cases hinfo : w.typeInfo t with
    | error e => rw [tree_eq_error hinfo]; rfl
    | ok info =>
      have hargs : info.args.mapM (w.descend make depth) =
          .now (info.args.mapM fun a => (w.tree a).map f) :=
        Bounded.mapM_now fun a ha => ih (by have := args_lt hinfo a ha; omega)
      rw [map_tree_eq hf hinfo, Bounded.now_ok_bind, hargs]
      refine Bounded.now_bind _ _ _ fun label _ => ?_
      exact Bounded.now_bind _ _ _ fun parts _ => rfl

/-- A handle without a type is refused by the first call. -/
theorem descend_eq_of_size_lt (hf : Folds make f) {depth : Nat} (h : w.types.size < depth)
    (t : TypeId) : w.descend make depth t = .now ((w.tree t).map f) := by
  rcases Nat.lt_or_ge t.index w.types.size with ht | ht
  · exact descend_eq hf (Nat.lt_trans ht h)
  · obtain ⟨depth, rfl⟩ : ∃ d, depth = d + 1 := ⟨depth - 1, by omega⟩
    have hinfo := typeInfo_eq_error ht
    rw [descend, hinfo, tree_eq_error hinfo]
    rfl

theorem map_methodTree_eq (f : TypeTree → α) (finish : α → String → List α → γ) (m : MethodId) :
    (w.methodTree m).map (fun tree => finish (f tree.owner) tree.name (tree.args.map f)) = (do
      let info ← w.methodInfo m
      let owner ← (w.tree info.owner).map f
      let args ← info.args.mapM fun a => (w.tree a).map f
      return finish owner info.name args) := by
  rw [methodTree]
  cases w.methodInfo m with
  | error e => rfl
  | ok info =>
    simp only [Except.mapM_map, trees, bind, Except.bind]
    cases w.tree info.owner with
    | error e => rfl
    | ok owner => cases info.args.mapM w.tree <;> rfl

theorem descendMethod_eq (hf : Folds make f) {depth : Nat} (h : w.types.size < depth)
    (finish : α → String → List α → γ) (m : MethodId) :
    w.descendMethod make finish depth m =
      .now ((w.methodTree m).map fun tree => finish (f tree.owner) tree.name (tree.args.map f)) := by
  rw [descendMethod, map_methodTree_eq]
  refine Bounded.now_bind _ _ _ fun info _ => ?_
  rw [descend_eq_of_size_lt hf h, Bounded.mapM_now fun a _ => descend_eq_of_size_lt hf h a]
  refine Bounded.now_bind _ _ _ fun owner _ => ?_
  exact Bounded.now_bind _ _ _ fun args _ => rfl

/-- Whether a type is within the listed modules: whether its own module is, and then whether its
arguments are, up to the first that is not. -/
def isWithinTo (w : World) (ids : List ModuleId) : Nat → TypeId → Option Bool
  | 0, _ => none
  | depth + 1, t =>
    match w.typeInfo t with
    | .error _ => some false
    | .ok info =>
      if info.module ∈ ids then info.args.allM (w.isWithinTo ids depth) else some false

/-- Whether the unit of the listed modules contains a method. -/
def emitsMethodTo (w : World) (ids : List ModuleId) (depth : Nat) (m : MethodId) : Option Bool :=
  match w.methodInfo m with
  | .error _ => some false
  | .ok info => do
    if ← w.isWithinTo ids depth info.owner then info.args.allM (w.isWithinTo ids depth)
    else return false

theorem allM_eq_some {p : α → Option Bool} {q : α → Bool} {xs : List α}
    (h : ∀ x ∈ xs, p x = some (q x)) : xs.allM p = some (xs.all q) := by
  induction xs with
  | nil => rfl
  | cons x xs ih =>
    have ih := ih fun y hy => h y (List.mem_cons_of_mem x hy)
    rw [List.allM, h x List.mem_cons_self, List.all_cons]
    cases q x with
    | false => rfl
    | true => exact ih

theorem isWithinTo_eq (ids : List ModuleId) {depth : Nat} {t : TypeId} (h : t.index < depth) :
    w.isWithinTo ids depth t = some (w.isWithin ids t) := by
  induction depth generalizing t with
  | zero => exact absurd h (Nat.not_lt_zero _)
  | succ depth ih =>
    rw [isWithinTo]
    cases hinfo : w.typeInfo t with
    | error e => rw [isWithin_eq_false hinfo]
    | ok info =>
      have hargs : info.args.allM (w.isWithinTo ids depth) =
          some (info.args.all (w.isWithin ids)) :=
        allM_eq_some fun a ha => ih (by have := args_lt hinfo a ha; omega)
      rw [isWithin_eq hinfo, isWithinGiven]
      dsimp only
      rw [hargs]
      by_cases hm : info.module ∈ ids <;> simp [hm]

theorem isWithinTo_eq_of_size_lt (ids : List ModuleId) {depth : Nat} (h : w.types.size < depth)
    (t : TypeId) : w.isWithinTo ids depth t = some (w.isWithin ids t) := by
  rcases Nat.lt_or_ge t.index w.types.size with ht | ht
  · exact isWithinTo_eq ids (Nat.lt_trans ht h)
  · obtain ⟨depth, rfl⟩ : ∃ d, depth = d + 1 := ⟨depth - 1, by omega⟩
    have hinfo := typeInfo_eq_error ht
    rw [isWithinTo, hinfo, isWithin_eq_false hinfo]

theorem emitsMethodTo_eq (ids : List ModuleId) {depth : Nat} (h : w.types.size < depth)
    (m : MethodId) :
    w.emitsMethodTo ids depth m = some ((CompilationUnit.modules ids).emitsMethod w m) := by
  rw [emitsMethodTo, CompilationUnit.emitsMethod]
  cases w.methodInfo m with
  | error e => rfl
  | ok info =>
    dsimp only
    rw [isWithinTo_eq_of_size_lt ids h, allM_eq_some fun a _ => isWithinTo_eq_of_size_lt ids h a]
    cases w.isWithin ids info.owner <;> rfl

end World

/-- The name of a type, of the names of its arguments. -/
def TypeLabel.named (l : TypeLabel) (args : List String) : String := l.displayName ++ bracketed args

/-- The name of a method, of those of its type and its arguments. -/
def MethodTree.named (owner name : String) (args : List String) : String :=
  owner ++ "." ++ name ++ bracketed args

theorem displayNames_eq_map (ts : List TypeTree) :
    displayNames ts = ts.map TypeTree.displayName := by
  induction ts with
  | nil => rfl
  | cons t ts ih => rw [displayNames, ih, List.map_cons]

theorem folds_displayName : World.Folds TypeLabel.named TypeTree.displayName := by
  intro l args
  rw [TypeTree.displayName, displayNames_eq_map, TypeLabel.named]

theorem identities_eq_map (ts : List TypeTree) : identities ts = ts.map TypeTree.identity := by
  induction ts with
  | nil => rfl
  | cons t ts ih => rw [identities, ih, List.map_cons]

namespace Symbol

/-- The bodies of arguments between their marks. -/
def enclosed : List (List Char) → List Char
  | [] => []
  | body :: rest => openMark ++ body ++ rest.flatMap (separatorMark ++ ·) ++ closeMark

/-- The body of the symbol of a type, of the bodies of its arguments. -/
def bodyOf (l : TypeLabel) (args : List (List Char)) : List Char :=
  escaped l.assembly.toList ++ (if l.scope = "" then [] else scopeMark ++ escaped l.scope.toList)
    ++ nameMark ++ escaped l.name.toList ++ enclosed args

def ofBody (body : List Char) : String := lead ++ String.ofList body

/-- The symbol of a method, of the bodies of its type and its arguments. -/
def ofMethodBody (owner : List Char) (name : String) (args : List (List Char)) : String :=
  ofBody (owner ++ nameMark ++ escaped name.toList ++ enclosed args)

theorem restBody_eq (ts : List TypeIdentity) :
    restBody ts = (ts.map typeBody).flatMap (separatorMark ++ ·) := by
  induction ts with
  | nil => rfl
  | cons t ts ih => rw [restBody, ih, List.map_cons, List.flatMap_cons]

theorem argsBody_eq (ts : List TypeIdentity) : argsBody ts = enclosed (ts.map typeBody) := by
  cases ts with
  | nil => rfl
  | cons t ts => rw [argsBody, restBody_eq, List.map_cons, enclosed]

theorem folds_typeBody : World.Folds bodyOf fun t => typeBody t.identity := by
  intro l args
  show typeBody (TypeTree.node l args).identity = _
  rw [TypeTree.identity, typeBody, argsBody_eq, identities_eq_map, List.map_map, bodyOf]
  rfl

end Symbol

end AheadOfTime
