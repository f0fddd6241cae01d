import AheadOfTime.Proofs.World.WellFormed

/-! Instantiations are interned: in every populated world the tables of instances hold exactly the
instantiations that are there, so no two types, and no two methods, are made from one definition
with the same arguments. -/

namespace AheadOfTime.World

variable {w w' : World}

theorem typeInfo_pushType {info x : TypeInfo} {h : ∀ a ∈ info.args, a.index < w.types.size}
    {t : TypeId} : (w.pushType info h).typeInfo t = .ok x ↔
      w.typeInfo t = .ok x ∨ (t = ⟨w.types.size⟩ ∧ x = info) := by
  rw [typeInfo_eq_ok, typeInfo_eq_ok, pushType, Array.getElem?_push]
  obtain ⟨i⟩ := t
  by_cases hi : i = w.types.size
  · simp [hi, eq_comm]
  · simp [hi]

theorem methodInfo_pushMethod {info x : MethodInfo} {m : MethodId} :
    methodInfo { w with methods := w.methods.push info } m = .ok x ↔
      w.methodInfo m = .ok x ∨ (m = ⟨w.methods.size⟩ ∧ x = info) := by
  rw [methodInfo_eq_ok, methodInfo_eq_ok, Array.getElem?_push]
  obtain ⟨i⟩ := m
  by_cases hi : i = w.methods.size
  · simp [hi, eq_comm]
  · simp [hi]

/-- A table finds each entity by what it was made of, and nothing else. -/
def Tabulates {ι α : Type} [BEq ι] (table : List (ι × α)) (made : α → ι → Prop) : Prop :=
  ∀ i a, table.lookup i = some a ↔ made a i

/-- What is made anew is put in front of a table that does not hold it yet. -/
theorem Tabulates.cons {ι α : Type} [DecidableEq ι] {table : List (ι × α)} {made made' : α → ι → Prop}
    {i : ι} {a : α} (h : Tabulates table made) (hnew : table.lookup i = none)
    (hmade : ∀ b j, made' b j ↔ made b j ∨ (b = a ∧ j = i)) : Tabulates ((i, a) :: table) made' := by
  intro j b
  rw [hmade, List.lookup_cons]
  by_cases hj : j = i
  · subst hj
    have hnone : ¬ made b j := by
      intro hb
      rw [(h j b).mpr hb] at hnew
      cases hnew
    simp [hnone, eq_comm]
  · rw [beq_false_of_ne hj]
    simpa [hj] using h j b

def TypeMadeOf (w : World) (t : TypeId) (i : Instantiation TypeId) : Prop :=
  ∃ info, w.typeInfo t = .ok info ∧ info.instantiation = some i

def MethodMadeOf (w : World) (m : MethodId) (i : Instantiation MethodId) : Prop :=
  ∃ info, w.methodInfo m = .ok info ∧ info.instantiation = some i

structure Interned (w : World) : Prop where
  types : Tabulates w.typeInstances w.TypeMadeOf
  methods : Tabulates w.methodInstances w.MethodMadeOf

theorem typeMadeOf_pushType {info : TypeInfo} {h : ∀ a ∈ info.args, a.index < w.types.size}
    {t : TypeId} {i : Instantiation TypeId} : (w.pushType info h).TypeMadeOf t i ↔
      w.TypeMadeOf t i ∨ (t = ⟨w.types.size⟩ ∧ info.instantiation = some i) := by
  simp [TypeMadeOf, typeInfo_pushType, or_and_right, exists_or, and_assoc]

theorem methodMadeOf_pushMethod {info : MethodInfo} {m : MethodId} {i : Instantiation MethodId} :
    MethodMadeOf { w with methods := w.methods.push info } m i ↔
      w.MethodMadeOf m i ∨ (m = ⟨w.methods.size⟩ ∧ info.instantiation = some i) := by
  simp [MethodMadeOf, methodInfo_pushMethod, or_and_right, exists_or, and_assoc]

/-- An override changes neither the definition nor the arguments of a type. -/
theorem typeMadeOf_pushOverride {j : Nat} {o : Override} {t : TypeId} {i : Instantiation TypeId} :
    (w.pushOverride j o).TypeMadeOf t i ↔ w.TypeMadeOf t i := by
  simp only [TypeMadeOf, typeInfo_eq_ok, pushOverride, Array.getElem?_modify]
  split
  · simp [Option.map_eq_some_iff, TypeInfo.withOverride]
  · rfl

theorem interned_empty : empty.Interned := by
  constructor <;>
    simp [Tabulates, TypeMadeOf, MethodMadeOf, empty, typeInfo_eq_ok, methodInfo_eq_ok]

theorem declare_interned {d : Declaration} {e : Option EntityId} (hw : w.Interned)
    (h : w.declare d = .ok (w', e)) : w'.Interned := by
  cases d with
  | module a =>
    cases h
    exact ⟨hw.types, hw.methods⟩
  | type module scope name parameters base =>
    obtain ⟨⟨w₁, t⟩, h₁, h⟩ := Except.map_eq_ok.mp h
    cases h
    obtain ⟨-, -, -, hargs, rfl⟩ := addType_ok h₁
    refine ⟨fun i u => (hw.types i u).trans ?_, hw.methods⟩
    simp [typeMadeOf_pushType]
  | method owner name parameters isVirtual =>
    obtain ⟨⟨w₁, m⟩, h₁, h⟩ := Except.map_eq_ok.mp h
    cases h
    obtain ⟨-, -, rfl⟩ := addMethod_ok h₁
    refine ⟨hw.types, fun i n => (hw.methods i n).trans ?_⟩
    simp [methodMadeOf_pushMethod]
  | override t o =>
    obtain ⟨w₁, h₁, h⟩ := Except.map_eq_ok.mp h
    cases h
    obtain ⟨-, -, -, rfl⟩ := addOverride_ok h₁
    exact ⟨fun i u => (hw.types i u).trans typeMadeOf_pushOverride.symm, hw.methods⟩
  | typeInstance definition args =>
    obtain ⟨⟨w₁, t⟩, h₁, h⟩ := Except.map_eq_ok.mp h
    cases h
    obtain ⟨d, -, -, -, -, -, ⟨-, hsame⟩ | ⟨hnew, rfl, hargs, rfl⟩⟩ := typeInstance_ok h₁
    · exact hsame ▸ hw
    · refine ⟨hw.types.cons hnew fun u i => ?_, hw.methods⟩
      refine (typeMadeOf_pushType (h := hargs)).trans ?_
      simp [TypeInfo.close, eq_comm]
  | methodInstance definition args =>
    obtain ⟨⟨w₁, m⟩, h₁, h⟩ := Except.map_eq_ok.mp h
    cases h
    obtain ⟨d, -, -, -, -, -, ⟨-, hsame⟩ | ⟨hnew, rfl, rfl⟩⟩ := methodInstance_ok h₁
    · exact hsame ▸ hw
    · refine ⟨hw.types, hw.methods.cons hnew fun n i => ?_⟩
      refine methodMadeOf_pushMethod.trans ?_
      simp [MethodInfo.close, eq_comm]

theorem interned_after (h : w.Interned) (d : Declaration) : (w.after d).Interned := by
  unfold after
  split
  · rename_i hd
    exact declare_interned h hd
  · exact h

theorem interned_populated (ds : List Declaration) : (populated ds).Interned :=
  List.foldlRecOn ds after interned_empty fun _ h d _ => interned_after h d

end AheadOfTime.World
