import AheadOfTime.Proofs.Node.Universe
import AheadOfTime.Proofs.Symbol.Identity
import AheadOfTime.Proofs.Symbol.Kinds

/-! Why there is no node for a key. Of a type or method that the world has, a handle is refused only
if the type is open, an entry point only if the method is. So what follows from a key that has a
node is refused only where the key mentions something open (`references_fault`, `overrides_fault`).
-/

namespace AheadOfTime.World

variable {w : World}

/-- Definitions with unbound parameters are open, and methods also with the type they belong to. -/
def IsOpen (w : World) : Entity → Prop
  | .type t => ∃ info, w.typeInfo t = .ok info ∧ info.isOpen = true
  | .method m => w.isOpenMethod m = .ok true
  | .symbol _ => False

/-- What the references of a key lead to, apart from code and from the dictionary of the key. -/
inductive Mentions (w : World) : Key → Entity → Prop where
  | base {t b : TypeId} {info : TypeInfo} (ht : w.typeInfo t = .ok info) (hb : info.base = some b) :
    Mentions w (.typeDescriptor t) (.type b)
  | declaring {m : MethodId} {info : MethodInfo} (hm : w.methodInfo m = .ok info) :
    Mentions w (.virtualMethodUse m) (.type info.owner)
  | methodArgument {m : MethodId} {a : TypeId} {info : MethodInfo} (hm : w.methodInfo m = .ok info)
    (ha : a ∈ info.args) : Mentions w (.methodDictionary m) (.type a)
  | typeArgument {t a : TypeId} {info : TypeInfo} (ht : w.typeInfo t = .ok info)
    (ha : a ∈ info.args) : Mentions w (.typeDictionary t) (.type a)

/-- What a descriptor puts into virtual slots. -/
inductive Implements (w : World) : Key → Entity → Prop where
  | override {t : TypeId} {info : TypeInfo} {o : Override} (ht : w.typeInfo t = .ok info)
    (ho : o ∈ info.overrides) : Implements w (.typeDescriptor t) (.method o.implementation)

/-- A key expands to what it mentions and to what it implements. -/
def Expands (w : World) (k : Key) (e : Entity) : Prop := w.Mentions k e ∨ w.Implements k e

section Checks

variable {m : MethodId} {t : TypeId} {fault : KeyFault}

theorem ensureClosedType_eq {info : TypeInfo} (h : w.typeInfo t = .ok info) :
    w.ensureClosedType t = if info.isOpen then .error .openType else .ok () := by
  rw [ensureClosedType, h]
  cases hopen : info.isOpen <;> simp [known, Except.mapError, hopen, bind, Except.bind] <;> rfl

theorem ensureClosedMethod_eq {isOpen : Bool} (h : w.isOpenMethod m = .ok isOpen) :
    w.ensureClosedMethod m = if isOpen then .error .openMethod else .ok () := by
  rw [ensureClosedMethod, h]
  cases isOpen <;> rfl

theorem ensureTypeInstance_ok {info : TypeInfo} (h : w.typeInfo t = .ok info)
    (hclosed : w.ensureClosedType t = .ok ()) (hargs : info.args ≠ []) :
    w.ensureTypeInstance t = .ok () := by
  rw [ensureTypeInstance, hclosed, h]
  simp [known, Except.mapError, hargs, bind, Except.bind, pure, Except.pure]

theorem ensureMethodInstance_ok {info : MethodInfo} (h : w.methodInfo m = .ok info)
    (hclosed : w.ensureClosedMethod m = .ok ()) (hargs : info.args ≠ []) :
    w.ensureMethodInstance m = .ok () := by
  rw [ensureMethodInstance, hclosed, h]
  simp [known, Except.mapError, hargs, bind, Except.bind, pure, Except.pure]

theorem ensureVirtual_ok {info : MethodInfo} (h : w.methodInfo m = .ok info)
    (hvirtual : info.isVirtual = true) : w.ensureVirtual m = .ok () := by
  rw [ensureVirtual, h]
  simp [known, Except.mapError, hvirtual, bind, Except.bind, pure, Except.pure]

theorem isOpenMethod_eq {info : MethodInfo} {owner : TypeInfo} (h : w.methodInfo m = .ok info)
    (howner : w.typeInfo info.owner = .ok owner) :
    w.isOpenMethod m = .ok (decide (0 < info.parameters) || owner.isOpen) := by
  rw [isOpenMethod, h]
  by_cases hparameters : 0 < info.parameters <;>
    simp [hparameters, howner, bind, Except.bind, pure, Except.pure]

/-- A key whose symbol can be written out is refused by the check before that alone. -/
theorem checked_eq_error {check : Except KeyFault Unit} {symbol : Except KeyFault String} {s : String}
    (hsymbol : symbol = .ok s) (h : (do check; symbol) = .error fault) : check = .error fault := by
  subst hsymbol
  cases check with
  | error e =>
    cases h
    rfl
  | ok => cases h

end Checks

namespace WellFormed

variable (hw : w.WellFormed) {u : CompilationUnit} {b : Bool} {m : MethodId} {t : TypeId}
  {fault : KeyFault}
include hw

theorem typeHandle_fault (ht : w.Has (.type t))
    (h : w.nodeSymbol b (u.bind w (.typeHandle t)) = .error fault) :
    fault = .openType ∧ w.IsOpen (.type t) := by
  obtain ⟨i, hi⟩ := hw.typeIdentity_ok ht
  have hcheck : w.ensureClosedType t = .error fault := by
    rw [CompilationUnit.bind] at h
    split at h <;> exact checked_eq_error (by rw [descriptorSymbol, hi]; rfl) h
  obtain ⟨info, hinfo⟩ := exists_typeInfo.mpr ht
  rw [ensureClosedType_eq hinfo] at hcheck
  split at hcheck
  · rename_i hopen
    cases hcheck
    exact ⟨rfl, info, hinfo, hopen⟩
  · cases hcheck

theorem methodEntrypoint_fault (hm : w.Has (.method m))
    (h : w.nodeSymbol b (u.bind w (.methodEntrypoint m)) = .error fault) :
    fault = .openMethod ∧ w.IsOpen (.method m) := by
  obtain ⟨i, hi⟩ := hw.methodIdentity_ok hm
  have hcheck : w.ensureClosedMethod m = .error fault := by
    rw [CompilationUnit.bind] at h
    split at h <;> exact checked_eq_error (by rw [methodSymbol, hi]; rfl) h
  obtain ⟨info, hinfo⟩ := exists_methodInfo.mpr hm
  obtain ⟨owner, howner⟩ := (hw.methods m info hinfo).owner
  have hopen := isOpenMethod_eq hinfo howner
  rw [ensureClosedMethod_eq hopen] at hcheck
  split at hcheck
  · rename_i hdecide
    cases hcheck
    exact ⟨rfl, hopen.trans (congrArg Except.ok hdecide)⟩
  · cases hcheck

theorem virtualMethodUse_granted {info : MethodInfo} (hinfo : w.methodInfo m = .ok info)
    (hvirtual : info.isVirtual = true) :
    w.nodeSymbol b (u.bind w (.virtualMethodUse m)) ≠ .error fault := by
  intro h
  obtain ⟨i, hi⟩ := hw.methodIdentity_ok (exists_methodInfo.mp ⟨info, hinfo⟩)
  have hcheck := checked_eq_error (by rw [virtualUseSymbol, hi]; rfl) h
  cases (ensureVirtual_ok hinfo hvirtual).symm.trans hcheck

theorem typeDictionary_granted (ht : w.Has (.type t)) (hcheck : w.ensureTypeInstance t = .ok ()) :
    w.nodeSymbol b (u.bind w (.typeDictionary t)) ≠ .error fault := by
  intro h
  obtain ⟨i, hi⟩ := hw.typeIdentity_ok ht
  rw [CompilationUnit.bind] at h
  split at h <;>
    cases hcheck.symm.trans (checked_eq_error (by rw [typeDictionarySymbol, hi]; rfl) h)

theorem methodDictionary_granted (hm : w.Has (.method m))
    (hcheck : w.ensureMethodInstance m = .ok ()) :
    w.nodeSymbol b (u.bind w (.methodDictionary m)) ≠ .error fault := by
  intro h
  obtain ⟨i, hi⟩ := hw.methodIdentity_ok hm
  rw [CompilationUnit.bind] at h
  split at h <;>
    cases hcheck.symm.trans (checked_eq_error (by rw [methodDictionarySymbol, hi]; rfl) h)

/-- A reference of a key that may have a node is refused only if it is to something open that the
key mentions. -/
theorem references_fault {k : Key} {hasData : Bool} {name : String} {own : List Reference}
    (hname : w.nodeSymbol hasData k = .ok name) (hown : w.references k = .ok own) {r : Reference}
    (hr : r ∈ own) (h : w.nodeSymbol b (u.bind w r.target) = .error fault) :
    ∃ t, r.target = .typeHandle t ∧ w.Mentions k (.type t) ∧ w.IsOpen (.type t) ∧
      fault = .openType := by
  have hhas := hw.has_of_references hown r hr
  have hhandle {t : TypeId} (htarget : r.target = .typeHandle t) (hmentions : w.Mentions k (.type t)) :
      ∃ t, r.target = .typeHandle t ∧ w.Mentions k (.type t) ∧ w.IsOpen (.type t) ∧
        fault = .openType := by
    rw [htarget] at hhas h
    obtain ⟨hfault, hopen⟩ := hw.typeHandle_fault hhas h
    exact ⟨t, htarget, hmentions, hopen, hfault⟩
  cases k with
  | methodEntrypoint m =>
    obtain ⟨info, hinfo, hown⟩ := Except.bind_eq_ok.mp hown
    cases hown
    obtain ⟨⟨⟩, hclosed, -⟩ := Except.bind_eq_ok.mp hname
    obtain ⟨owner, howner⟩ := (hw.methods m info hinfo).owner
    rcases List.mem_cons.mp hr with rfl | hr
    · obtain ⟨-, info', hinfo', hopen⟩ := hw.typeHandle_fault hhas h
      cases howner.symm.trans hinfo'
      rw [ensureClosedMethod_eq (isOpenMethod_eq hinfo howner), hopen, Bool.or_true] at hclosed
      cases hclosed
    · split at hr
      · cases hr
      · rename_i hargs
        obtain rfl := List.mem_singleton.mp hr
        exact absurd h (hw.methodDictionary_granted hhas (ensureMethodInstance_ok hinfo hclosed hargs))
  | typeDescriptor t =>
    obtain ⟨info, hinfo, hown⟩ := Except.bind_eq_ok.mp hown
    cases hown
    obtain ⟨⟨⟩, hclosed, -⟩ := Except.bind_eq_ok.mp hname
    rcases List.mem_append.mp hr with hr | hr
    · obtain ⟨base, hbase, rfl⟩ := List.mem_map.mp hr
      exact hhandle rfl (.base hinfo (Option.mem_toList.mp hbase))
    · split at hr
      · cases hr
      · rename_i hargs
        obtain rfl := List.mem_singleton.mp hr
        exact absurd h (hw.typeDictionary_granted hhas (ensureTypeInstance_ok hinfo hclosed hargs))
  | virtualMethodUse m =>
    obtain ⟨info, hinfo, hown⟩ := Except.bind_eq_ok.mp hown
    cases hown
    obtain rfl := List.mem_singleton.mp hr
    exact hhandle rfl (.declaring hinfo)
  | methodDictionary m =>
    obtain ⟨info, hinfo, hown⟩ := Except.bind_eq_ok.mp hown
    cases hown
    obtain ⟨a, ha, rfl⟩ := List.mem_map.mp hr
    exact hhandle rfl (.methodArgument hinfo ha)
  | typeDictionary t =>
    obtain ⟨info, hinfo, hown⟩ := Except.bind_eq_ok.mp hown
    cases hown
    obtain ⟨a, ha, rfl⟩ := List.mem_map.mp hr
    exact hhandle rfl (.typeArgument hinfo ha)
  | externMethod m | importedTypeDescriptor t | importedMethodDictionary m
  | importedTypeDictionary t | externSymbol name | dataBlob name =>
    cases hown
    cases hr

/-- Slots of overrides are never refused, implementations only if they are open. -/
theorem overrides_fault {k : Key} {overrides : List Override}
    (hoverrides : w.overridesOf k = .ok overrides) {o : Override} (ho : o ∈ overrides) :
    w.nodeSymbol b (u.bind w (.virtualMethodUse o.declaration)) ≠ .error fault ∧
      (w.nodeSymbol b (u.bind w (.methodEntrypoint o.implementation)) = .error fault →
        w.Implements k (.method o.implementation) ∧ w.IsOpen (.method o.implementation) ∧
          fault = .openMethod) := by
  cases k with
  | typeDescriptor t =>
    obtain ⟨info, hinfo, rfl⟩ := Except.map_eq_ok.mp hoverrides
    obtain ⟨d, hd, hvirtual⟩ := (hw.types t info hinfo).declaration o ho
    have himplementation := (hw.types t info hinfo).implementation o ho
    refine ⟨hw.virtualMethodUse_granted hd hvirtual, fun h => ?_⟩
    obtain ⟨hfault, hopen⟩ := hw.methodEntrypoint_fault (exists_methodInfo.mp himplementation) h
    exact ⟨.override hinfo ho, hopen, hfault⟩
  | _ =>
    cases hoverrides
    cases ho

end WellFormed

end AheadOfTime.World
