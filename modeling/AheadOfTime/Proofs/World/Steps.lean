import AheadOfTime.Proofs.Except
import AheadOfTime.World.Population

/-! What each step of the population does when it is taken, and that no step takes anything away:
modules, methods and types stay as they are, except that a type may gain overrides. -/

namespace AheadOfTime.World

variable {w w' : World}

theorem assembly_eq_ok {m : ModuleId} {a : Assembly} :
    w.assembly m = .ok a ↔ w.assemblies[m.index]? = some a := by
  unfold assembly; split <;> simp_all

theorem methodInfo_eq_ok {m : MethodId} {info : MethodInfo} :
    w.methodInfo m = .ok info ↔ w.methods[m.index]? = some info := by
  unfold methodInfo; split <;> simp_all

theorem typeInfo_eq_error {t : TypeId} (h : w.types.size ≤ t.index) :
    w.typeInfo t = .error (.noType t) := by
  rw [typeInfo, Array.getElem?_eq_none h]

theorem methodInfo_eq_error {m : MethodId} (h : w.methods.size ≤ m.index) :
    w.methodInfo m = .error (.noMethod m) := by
  rw [methodInfo, Array.getElem?_eq_none h]

theorem exists_typeInfo {t : TypeId} :
    (∃ info, w.typeInfo t = .ok info) ↔ t.index < w.types.size := by
  simp only [typeInfo_eq_ok]
  constructor
  · rintro ⟨info, h⟩
    exact (Array.getElem?_eq_some_iff.mp h).1
  · intro h
    exact ⟨w.types[t.index], Array.getElem?_eq_getElem h⟩

theorem exists_methodInfo {m : MethodId} :
    (∃ info, w.methodInfo m = .ok info) ↔ m.index < w.methods.size := by
  simp only [methodInfo_eq_ok]
  constructor
  · rintro ⟨info, h⟩
    exact (Array.getElem?_eq_some_iff.mp h).1
  · intro h
    exact ⟨w.methods[m.index], Array.getElem?_eq_getElem h⟩

theorem addType_ok {module : ModuleId} {scope name : String} {parameters : Nat}
    {base : Option TypeId} {t : TypeId}
    (h : w.addType module scope name parameters base = .ok (w', t)) :
    (∃ a, w.assembly module = .ok a) ∧ (∀ b, base = some b → ∃ info, w.typeInfo b = .ok info) ∧
      t = ⟨w.types.size⟩ ∧
      ∃ hargs, w' = w.pushType ⟨module, scope, name, parameters, none, base, []⟩ hargs := by
  unfold addType at h
  obtain ⟨a, ha, h⟩ := Except.bind_eq_ok.mp h
  cases base with
  | none =>
    cases h
    exact ⟨⟨a, ha⟩, by simp, rfl, _, rfl⟩
  | some b =>
    obtain ⟨info, hinfo, h⟩ := Except.bind_eq_ok.mp h
    cases h
    exact ⟨⟨a, ha⟩, by rintro b' ⟨⟩; exact ⟨info, hinfo⟩, rfl, _, rfl⟩

theorem addMethod_ok {owner : TypeId} {name : String} {parameters : Nat} {isVirtual : Bool}
    {m : MethodId} (h : w.addMethod owner name parameters isVirtual = .ok (w', m)) :
    (∃ info, w.typeInfo owner = .ok info) ∧ m = ⟨w.methods.size⟩ ∧
      w' = { w with methods := w.methods.push ⟨owner, name, parameters, none, isVirtual⟩ } := by
  unfold addMethod at h
  obtain ⟨info, hinfo, h⟩ := Except.bind_eq_ok.mp h
  cases h
  exact ⟨⟨info, hinfo⟩, rfl, rfl⟩

theorem addOverride_ok {t : TypeId} {o : Override} (h : w.addOverride t o = .ok w') :
    (∃ d, w.methodInfo o.declaration = .ok d ∧ d.isVirtual = true) ∧
      (∃ i, w.methodInfo o.implementation = .ok i) ∧ (∃ info, w.typeInfo t = .ok info) ∧
      w' = w.pushOverride t.index o := by
  unfold addOverride at h
  obtain ⟨d, hd, h⟩ := Except.bind_eq_ok.mp h
  dsimp only at h
  split at h
  · rename_i hvirtual
    obtain ⟨i, hi, h⟩ := Except.bind_eq_ok.mp h
    obtain ⟨info, hinfo, h⟩ := Except.bind_eq_ok.mp h
    cases h
    exact ⟨⟨d, hd, hvirtual⟩, ⟨i, hi⟩, ⟨info, hinfo⟩, rfl⟩
  · obtain ⟨_, _, h⟩ := Except.bind_eq_ok.mp h
    cases h

/-- What passes the guard of an instantiation is a definition and has parameters. -/
theorem isDefinition_of_guard {α : Type} {i : Option α} {n : Nat}
    (h : ¬ (i.isSome || decide (n = 0)) = true) : i = none ∧ 0 < n := by
  rw [Bool.or_eq_true, not_or, Bool.not_eq_true, Option.isSome_eq_false_iff] at h
  obtain ⟨hnone, hpos⟩ := h
  rw [decide_eq_true_eq] at hpos
  exact ⟨Option.isNone_iff_eq_none.mp hnone, by omega⟩

theorem typeInstance_ok {definition t : TypeId} {args : List TypeId}
    (h : w.typeInstance definition args = .ok (w', t)) :
    ∃ d, w.typeInfo definition = .ok d ∧ d.instantiation = none ∧ 0 < d.parameters ∧
      d.parameters = args.length ∧ (∀ a ∈ args, a.index < w.types.size) ∧
      ((w.typeInstances.lookup ⟨definition, args⟩ = some t ∧ w' = w) ∨
       (w.typeInstances.lookup ⟨definition, args⟩ = none ∧ t = ⟨w.types.size⟩ ∧
        ∃ hargs, w' = { w.pushType (d.close ⟨definition, args⟩) hargs with
          typeInstances := (⟨definition, args⟩, t) :: w.typeInstances })) := by
  unfold typeInstance at h
  obtain ⟨d, hd, h⟩ := Except.bind_eq_ok.mp h
  dsimp only at h
  split at h
  · obtain ⟨_, _, h⟩ := Except.bind_eq_ok.mp h
    cases h
  split at h
  · obtain ⟨_, _, h⟩ := Except.bind_eq_ok.mp h
    cases h
  rename_i hgeneric harity
  have hlength : d.parameters = args.length := not_not.mp harity
  obtain ⟨hdef, hpos⟩ := isDefinition_of_guard hgeneric
  split at h
  · cases h
  rename_i hknown
  have hargs := firstUnknown_eq_none.mp hknown
  refine ⟨d, hd, hdef, hpos, hlength, hargs, ?_⟩
  split at h
  · rename_i hfound
    cases h
    exact .inl ⟨hfound, rfl⟩
  · rename_i hfound
    cases h
    exact .inr ⟨hfound, rfl, hargs, rfl⟩

theorem methodInstance_ok {definition m : MethodId} {args : List TypeId}
    (h : w.methodInstance definition args = .ok (w', m)) :
    ∃ d, w.methodInfo definition = .ok d ∧ d.instantiation = none ∧ 0 < d.parameters ∧
      d.parameters = args.length ∧ (∀ a ∈ args, a.index < w.types.size) ∧
      ((w.methodInstances.lookup ⟨definition, args⟩ = some m ∧ w' = w) ∨
       (w.methodInstances.lookup ⟨definition, args⟩ = none ∧ m = ⟨w.methods.size⟩ ∧
        w' = { w with
          methods := w.methods.push (d.close ⟨definition, args⟩)
          methodInstances := (⟨definition, args⟩, m) :: w.methodInstances })) := by
  unfold methodInstance at h
  obtain ⟨d, hd, h⟩ := Except.bind_eq_ok.mp h
  dsimp only at h
  split at h
  · obtain ⟨_, _, h⟩ := Except.bind_eq_ok.mp h
    cases h
  split at h
  · obtain ⟨_, _, h⟩ := Except.bind_eq_ok.mp h
    cases h
  rename_i hgeneric harity
  have hlength : d.parameters = args.length := not_not.mp harity
  obtain ⟨hdef, hpos⟩ := isDefinition_of_guard hgeneric
  split at h
  · cases h
  rename_i hknown
  have hargs := firstUnknown_eq_none.mp (Option.eq_none_iff_forall_ne_some.mpr hknown)
  refine ⟨d, hd, hdef, hpos, hlength, hargs, ?_⟩
  split at h
  · rename_i hfound
    cases h
    exact .inl ⟨hfound, rfl⟩
  · rename_i hfound
    cases h
    exact .inr ⟨hfound, rfl, rfl⟩

/-- Everything of a world is still there in another, except that types may have more overrides. -/
structure Grows (w w' : World) : Prop where
  assemblies : ∀ m a, w.assembly m = .ok a → w'.assembly m = .ok a
  types : ∀ t info, w.typeInfo t = .ok info →
    ∃ more, w'.typeInfo t = .ok { info with overrides := info.overrides ++ more }
  methods : ∀ m info, w.methodInfo m = .ok info → w'.methodInfo m = .ok info

theorem Grows.refl (w : World) : Grows w w :=
  ⟨fun _ _ h => h, fun _ info h => ⟨[], by simpa using h⟩, fun _ _ h => h⟩

theorem Grows.trans {w'' : World} (h : Grows w w') (h' : Grows w' w'') : Grows w w'' := by
  refine ⟨fun m a ha => h'.assemblies m a (h.assemblies m a ha), fun t info ht => ?_,
    fun m info hm => h'.methods m info (h.methods m info hm)⟩
  obtain ⟨more, ht⟩ := h.types t info ht
  obtain ⟨later, ht⟩ := h'.types t _ ht
  exact ⟨more ++ later, by simpa using ht⟩

theorem grows_addAssembly (w : World) (a : Assembly) : Grows w (w.addAssembly a).1 := by
  refine ⟨fun m b hb => ?_, (Grows.refl w).types, (Grows.refl w).methods⟩
  rw [assembly_eq_ok] at hb ⊢
  obtain ⟨hm, -⟩ := Array.getElem?_eq_some_iff.mp hb
  rw [addAssembly, Array.getElem?_push_lt hm, ← hb, Array.getElem?_eq_getElem hm]

theorem grows_pushType (w : World) (info : TypeInfo) (h : ∀ a ∈ info.args, a.index < w.types.size) :
    Grows w (w.pushType info h) := by
  refine ⟨(Grows.refl w).assemblies, fun t old ht => ⟨[], ?_⟩, (Grows.refl w).methods⟩
  rw [typeInfo_eq_ok] at ht ⊢
  obtain ⟨hi, -⟩ := Array.getElem?_eq_some_iff.mp ht
  rw [List.append_nil, pushType, Array.getElem?_push_lt hi, ← ht, Array.getElem?_eq_getElem hi]

theorem grows_pushOverride (w : World) (i : Nat) (o : Override) : Grows w (w.pushOverride i o) := by
  refine ⟨(Grows.refl w).assemblies, fun t old ht => ?_, (Grows.refl w).methods⟩
  rw [typeInfo_eq_ok] at ht
  simp only [typeInfo_eq_ok, pushOverride, Array.getElem?_modify, ht]
  split
  · exact ⟨[o], rfl⟩
  · exact ⟨[], by simp⟩

theorem grows_pushMethod (w : World) (info : MethodInfo) :
    Grows w { w with methods := w.methods.push info } := by
  refine ⟨(Grows.refl w).assemblies, (Grows.refl w).types, fun m old hm => ?_⟩
  rw [methodInfo_eq_ok] at hm ⊢
  obtain ⟨hi, -⟩ := Array.getElem?_eq_some_iff.mp hm
  rw [Array.getElem?_push_lt hi, ← hm, Array.getElem?_eq_getElem hi]

theorem declare_grows {d : Declaration} {e : Option EntityId} (h : w.declare d = .ok (w', e)) :
    Grows w w' := by
  cases d with
  | module a =>
    cases h
    exact grows_addAssembly w a
  | type module scope name parameters base =>
    obtain ⟨⟨w₁, t⟩, h₁, h⟩ := Except.map_eq_ok.mp h
    cases h
    obtain ⟨-, -, -, hargs, rfl⟩ := addType_ok h₁
    exact grows_pushType w _ hargs
  | method owner name parameters isVirtual =>
    obtain ⟨⟨w₁, m⟩, h₁, h⟩ := Except.map_eq_ok.mp h
    cases h
    obtain ⟨-, -, rfl⟩ := addMethod_ok h₁
    exact grows_pushMethod w _
  | override t o =>
    obtain ⟨w₁, h₁, h⟩ := Except.map_eq_ok.mp h
    cases h
    obtain ⟨-, -, -, rfl⟩ := addOverride_ok h₁
    exact grows_pushOverride w _ o
  | typeInstance definition args =>
    obtain ⟨⟨w₁, t⟩, h₁, h⟩ := Except.map_eq_ok.mp h
    cases h
    obtain ⟨d, -, -, -, -, -, ⟨-, hsame⟩ | ⟨-, -, hargs, rfl⟩⟩ := typeInstance_ok h₁
    · exact hsame ▸ Grows.refl w
    · have hpush := grows_pushType w (d.close ⟨definition, args⟩) hargs
      exact ⟨hpush.assemblies, hpush.types, hpush.methods⟩
  | methodInstance definition args =>
    obtain ⟨⟨w₁, m⟩, h₁, h⟩ := Except.map_eq_ok.mp h
    cases h
    obtain ⟨d, -, -, -, -, -, ⟨-, hsame⟩ | ⟨-, -, rfl⟩⟩ := methodInstance_ok h₁
    · exact hsame ▸ Grows.refl w
    · have hpush := grows_pushMethod w (d.close ⟨definition, args⟩)
      exact ⟨hpush.assemblies, hpush.types, hpush.methods⟩

end AheadOfTime.World
