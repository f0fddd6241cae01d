import AheadOfTime.Proofs.World.Interned

/-! What was given out lasts. A type or method made by putting arguments in for parameters is what
the same request gives out ever after, and no other request does. Later steps leave types and
methods as they are, except that an override is added to the type that it names. -/

namespace AheadOfTime.World

variable {w w' : World}

/-- A definition that the arguments may be put into. -/
def TypeAdmits (w : World) (definition : TypeId) (args : List TypeId) : Prop :=
  ∃ d, w.typeInfo definition = .ok d ∧ d.instantiation = none ∧ 0 < d.parameters ∧
    d.parameters = args.length ∧ ∀ a ∈ args, a.index < w.types.size

def MethodAdmits (w : World) (definition : MethodId) (args : List TypeId) : Prop :=
  ∃ d, w.methodInfo definition = .ok d ∧ d.instantiation = none ∧ 0 < d.parameters ∧
    d.parameters = args.length ∧ ∀ a ∈ args, a.index < w.types.size

theorem grows_after (w : World) (d : Declaration) : Grows w (w.after d) := by
  unfold after
  split
  · rename_i hd
    exact declare_grows hd
  · exact Grows.refl w

theorem grows_foldl (ds : List Declaration) (w : World) : Grows w (ds.foldl after w) := by
  induction ds generalizing w with
  | nil => exact Grows.refl w
  | cons d ds ih => exact (grows_after w d).trans (ih (w.after d))

theorem Interned.foldl (h : w.Interned) (ds : List Declaration) : (ds.foldl after w).Interned :=
  List.foldlRecOn ds after h fun _ h d _ => interned_after h d

theorem Grows.lt_size (hg : Grows w w') {t : TypeId} (h : t.index < w.types.size) :
    t.index < w'.types.size := by
  obtain ⟨info, hinfo⟩ := exists_typeInfo.mpr h
  obtain ⟨more, hinfo'⟩ := hg.types t info hinfo
  exact exists_typeInfo.mp ⟨_, hinfo'⟩

theorem Grows.typeAdmits (hg : Grows w w') {definition : TypeId} {args : List TypeId}
    (h : w.TypeAdmits definition args) : w'.TypeAdmits definition args := by
  obtain ⟨d, hd, hdef, hpos, harity, hargs⟩ := h
  obtain ⟨more, hd'⟩ := hg.types definition d hd
  exact ⟨_, hd', hdef, hpos, harity, fun a ha => hg.lt_size (hargs a ha)⟩

theorem Grows.methodAdmits (hg : Grows w w') {definition : MethodId} {args : List TypeId}
    (h : w.MethodAdmits definition args) : w'.MethodAdmits definition args := by
  obtain ⟨d, hd, hdef, hpos, harity, hargs⟩ := h
  exact ⟨d, hg.methods definition d hd, hdef, hpos, harity, fun a ha => hg.lt_size (hargs a ha)⟩

theorem Grows.typeMadeOf (hg : Grows w w') {t : TypeId} {i : Instantiation TypeId}
    (h : w.TypeMadeOf t i) : w'.TypeMadeOf t i := by
  obtain ⟨info, hinfo, hi⟩ := h
  obtain ⟨more, hinfo'⟩ := hg.types t info hinfo
  exact ⟨_, hinfo', hi⟩

theorem Grows.methodMadeOf (hg : Grows w w') {m : MethodId} {i : Instantiation MethodId}
    (h : w.MethodMadeOf m i) : w'.MethodMadeOf m i := by
  obtain ⟨info, hinfo, hi⟩ := h
  exact ⟨info, hg.methods m info hinfo, hi⟩

theorem TypeMadeOf.unique {t : TypeId} {i j : Instantiation TypeId} (hi : w.TypeMadeOf t i)
    (hj : w.TypeMadeOf t j) : i = j := by
  obtain ⟨info, hinfo, hi⟩ := hi
  obtain ⟨info', hinfo', hj⟩ := hj
  cases hinfo.symm.trans hinfo'
  exact Option.some.inj (hi.symm.trans hj)

theorem MethodMadeOf.unique {m : MethodId} {i j : Instantiation MethodId}
    (hi : w.MethodMadeOf m i) (hj : w.MethodMadeOf m j) : i = j := by
  obtain ⟨info, hinfo, hi⟩ := hi
  obtain ⟨info', hinfo', hj⟩ := hj
  cases hinfo.symm.trans hinfo'
  exact Option.some.inj (hi.symm.trans hj)

/-- A table has one entity for what it was made of. -/
theorem Tabulates.unique {ι α : Type} [BEq ι] {table : List (ι × α)} {made : α → ι → Prop}
    (h : Tabulates table made) {a b : α} {i : ι} (ha : made a i) (hb : made b i) : a = b :=
  Option.some.inj (((h i a).mpr ha).symm.trans ((h i b).mpr hb))

section Again

variable {t : TypeId} {m : MethodId} {args : List TypeId}

/-- Asked for what is in the table, the world stays as it is. -/
theorem typeInstance_eq_self {definition : TypeId} (h : w.TypeAdmits definition args)
    (hfound : w.typeInstances.lookup ⟨definition, args⟩ = some t) :
    w.typeInstance definition args = .ok (w, t) := by
  obtain ⟨d, hd, hdef, hpos, harity, hargs⟩ := h
  have hknown := firstUnknown_eq_none.mpr hargs
  have hsome : ¬ args.length = 0 := by omega
  simp only [typeInstance, hd, bind, Except.bind, hdef, Option.isSome_none, harity, hsome,
    decide_false, Bool.or_self, Bool.false_eq_true, if_false, ne_eq, not_true_eq_false]
  split
  · rename_i hunknown
    cases hknown.symm.trans hunknown
  · rw [hfound]
    rfl

theorem methodInstance_eq_self {definition : MethodId} (h : w.MethodAdmits definition args)
    (hfound : w.methodInstances.lookup ⟨definition, args⟩ = some m) :
    w.methodInstance definition args = .ok (w, m) := by
  obtain ⟨d, hd, hdef, hpos, harity, hargs⟩ := h
  have hknown := firstUnknown_eq_none.mpr hargs
  have hsome : ¬ args.length = 0 := by omega
  simp only [methodInstance, hd, bind, Except.bind, hdef, Option.isSome_none, harity, hsome,
    decide_false, Bool.or_self, Bool.false_eq_true, if_false, ne_eq, not_true_eq_false, hknown,
    hfound]
  rfl

/-- What is given out is there and is made of what was asked for. -/
theorem typeInstance_made (hw : w.Interned) {definition : TypeId}
    (h : w.typeInstance definition args = .ok (w', t)) :
    w'.Interned ∧ Grows w w' ∧ w'.TypeAdmits definition args ∧
      w'.TypeMadeOf t ⟨definition, args⟩ := by
  have hdeclare : w.declare (.typeInstance definition args) = .ok (w', some (.type t)) :=
    Except.map_eq_ok.mpr ⟨(w', t), h, rfl⟩
  have hw' := declare_interned hw hdeclare
  have hg := declare_grows hdeclare
  obtain ⟨d, hd, hdef, hpos, harity, hargs, hresult⟩ := typeInstance_ok h
  refine ⟨hw', hg, hg.typeAdmits ⟨d, hd, hdef, hpos, harity, hargs⟩, (hw'.types _ t).mp ?_⟩
  rcases hresult with ⟨hfound, rfl⟩ | ⟨-, -, -, rfl⟩
  · exact hfound
  · exact List.lookup_cons_self

theorem methodInstance_made (hw : w.Interned) {definition : MethodId}
    (h : w.methodInstance definition args = .ok (w', m)) :
    w'.Interned ∧ Grows w w' ∧ w'.MethodAdmits definition args ∧
      w'.MethodMadeOf m ⟨definition, args⟩ := by
  have hdeclare : w.declare (.methodInstance definition args) = .ok (w', some (.method m)) :=
    Except.map_eq_ok.mpr ⟨(w', m), h, rfl⟩
  have hw' := declare_interned hw hdeclare
  have hg := declare_grows hdeclare
  obtain ⟨d, hd, hdef, hpos, harity, hargs, hresult⟩ := methodInstance_ok h
  refine ⟨hw', hg, hg.methodAdmits ⟨d, hd, hdef, hpos, harity, hargs⟩, (hw'.methods _ m).mp ?_⟩
  rcases hresult with ⟨hfound, rfl⟩ | ⟨-, -, rfl⟩
  · exact hfound
  · exact List.lookup_cons_self

/-- Once given out, a type is what the request gives out and what no other request gives out. -/
theorem typeInstance_again (hw : w.Interned) {definition : TypeId}
    (h : w.typeInstance definition args = .ok (w', t)) (later : List Declaration) :
    let v := later.foldl after w'
    v.typeInstance definition args = .ok (v, t) ∧
      ∀ definition' args', (∃ v', v.typeInstance definition' args' = .ok (v', t)) ↔
        definition' = definition ∧ args' = args := by
  intro v
  obtain ⟨hw', -, hadmits, hmade⟩ := typeInstance_made hw h
  have hg : Grows w' v := grows_foldl later w'
  have hv : v.Interned := hw'.foldl later
  have hsame : v.typeInstance definition args = .ok (v, t) :=
    typeInstance_eq_self (hg.typeAdmits hadmits) ((hv.types _ t).mpr (hg.typeMadeOf hmade))
  refine ⟨hsame, fun definition' args' => ⟨?_, ?_⟩⟩
  · rintro ⟨v', h'⟩
    obtain ⟨-, hgrows, -, hmade'⟩ := typeInstance_made hv h'
    cases hmade'.unique (hgrows.typeMadeOf (hg.typeMadeOf hmade))
    exact ⟨rfl, rfl⟩
  · rintro ⟨rfl, rfl⟩
    exact ⟨v, hsame⟩

theorem methodInstance_again (hw : w.Interned) {definition : MethodId}
    (h : w.methodInstance definition args = .ok (w', m)) (later : List Declaration) :
    let v := later.foldl after w'
    v.methodInstance definition args = .ok (v, m) ∧
      ∀ definition' args', (∃ v', v.methodInstance definition' args' = .ok (v', m)) ↔
        definition' = definition ∧ args' = args := by
  intro v
  obtain ⟨hw', -, hadmits, hmade⟩ := methodInstance_made hw h
  have hg : Grows w' v := grows_foldl later w'
  have hv : v.Interned := hw'.foldl later
  have hsame : v.methodInstance definition args = .ok (v, m) :=
    methodInstance_eq_self (hg.methodAdmits hadmits) ((hv.methods _ m).mpr (hg.methodMadeOf hmade))
  refine ⟨hsame, fun definition' args' => ⟨?_, ?_⟩⟩
  · rintro ⟨v', h'⟩
    obtain ⟨-, hgrows, -, hmade'⟩ := methodInstance_made hv h'
    cases hmade'.unique (hgrows.methodMadeOf (hg.methodMadeOf hmade))
    exact ⟨rfl, rfl⟩
  · rintro ⟨rfl, rfl⟩
    exact ⟨v, hsame⟩

end Again

section Frame

variable {t : TypeId} {info : TypeInfo}

theorem typeInfo_pushOverride_of_ne {i : Nat} {o : Override} (h : i ≠ t.index) :
    (w.pushOverride i o).typeInfo t = w.typeInfo t := by
  rw [typeInfo, typeInfo, pushOverride, Array.getElem?_modify, if_neg h]

/-- A step that is no override of a type leaves the type as it is. -/
theorem declare_typeInfo {d : Declaration} {e : Option EntityId}
    (h : w.declare d = .ok (w', e)) (hother : ∀ o, d ≠ .override t o)
    (ht : w.typeInfo t = .ok info) : w'.typeInfo t = .ok info := by
  cases d with
  | module a =>
    cases h
    exact ht
  | type module scope name parameters base =>
    obtain ⟨⟨w₁, u⟩, h₁, h⟩ := Except.map_eq_ok.mp h
    cases h
    obtain ⟨-, -, -, hargs, rfl⟩ := addType_ok h₁
    exact (typeInfo_pushType (h := hargs)).mpr (.inl ht)
  | method owner name parameters isVirtual =>
    obtain ⟨⟨w₁, m⟩, h₁, h⟩ := Except.map_eq_ok.mp h
    cases h
    obtain ⟨-, -, rfl⟩ := addMethod_ok h₁
    exact ht
  | override u o =>
    obtain ⟨w₁, h₁, h⟩ := Except.map_eq_ok.mp h
    cases h
    obtain ⟨-, -, -, rfl⟩ := addOverride_ok h₁
    have hne : u.index ≠ t.index := by
      intro hindex
      obtain rfl : u = t := by cases u; cases t; simp_all
      exact hother o rfl
    rw [typeInfo_pushOverride_of_ne hne, ht]
  | typeInstance definition args =>
    obtain ⟨⟨w₁, u⟩, h₁, h⟩ := Except.map_eq_ok.mp h
    cases h
    obtain ⟨d, -, -, -, -, -, ⟨-, hsame⟩ | ⟨-, -, hargs, rfl⟩⟩ := typeInstance_ok h₁
    · exact hsame ▸ ht
    · exact (typeInfo_pushType (h := hargs)).mpr (.inl ht)
  | methodInstance definition args =>
    obtain ⟨⟨w₁, m⟩, h₁, h⟩ := Except.map_eq_ok.mp h
    cases h
    obtain ⟨d, -, -, -, -, -, ⟨-, hsame⟩ | ⟨-, -, rfl⟩⟩ := methodInstance_ok h₁
    · exact hsame ▸ ht
    · exact ht

theorem typeInfo_foldl (ds : List Declaration) (hother : ∀ o, .override t o ∉ ds)
    (ht : w.typeInfo t = .ok info) : (ds.foldl after w).typeInfo t = .ok info := by
  induction ds generalizing w with
  | nil => exact ht
  | cons d ds ih =>
    refine ih (fun o ho => hother o (List.mem_cons_of_mem d ho)) ?_
    unfold after
    split
    · rename_i hd
      exact declare_typeInfo hd (fun o ho => hother o (ho ▸ List.mem_cons_self)) ht
    · exact ht

end Frame

theorem instances_last (ds : List Declaration) :
    let w := populated ds
    (∀ i t, w.typeInstances.lookup i = some t ↔ w.TypeMadeOf t i) ∧
    (∀ i m, w.methodInstances.lookup i = some m ↔ w.MethodMadeOf m i) ∧
    (∀ t u i, w.TypeMadeOf t i → w.TypeMadeOf u i → t = u) ∧
    (∀ m n i, w.MethodMadeOf m i → w.MethodMadeOf n i → m = n) ∧
    (∀ definition args w' t, w.typeInstance definition args = .ok (w', t) →
      ∀ later : List Declaration, let v := later.foldl after w'
      v.typeInstance definition args = .ok (v, t) ∧
        ∀ definition' args', (∃ v', v.typeInstance definition' args' = .ok (v', t)) ↔
          definition' = definition ∧ args' = args) ∧
    (∀ definition args w' m, w.methodInstance definition args = .ok (w', m) →
      ∀ later : List Declaration, let v := later.foldl after w'
      v.methodInstance definition args = .ok (v, m) ∧
        ∀ definition' args', (∃ v', v.methodInstance definition' args' = .ok (v', m)) ↔
          definition' = definition ∧ args' = args) ∧
    (∀ t info, w.typeInfo t = .ok info →
      ∀ later : List Declaration, (∀ o, .override t o ∉ later) →
        (later.foldl after w).typeInfo t = .ok info) ∧
    ∀ m info, w.methodInfo m = .ok info → ∀ later : List Declaration,
      (later.foldl after w).methodInfo m = .ok info := by
  intro w
  have hw : w.Interned := interned_populated ds
  exact ⟨hw.types, hw.methods, fun t u i => hw.types.unique, fun m n i => hw.methods.unique,
    fun definition args w' t h => typeInstance_again hw h,
    fun definition args w' m h => methodInstance_again hw h,
    fun t info ht later hother => typeInfo_foldl later hother ht,
    fun m info hm later => (grows_foldl later w).methods m info hm⟩

/-- Lists and widgets, and a generic method. -/
def listsOnly : List Declaration :=
  [.module ⟨"Core", ⟨1, 0, 0, 0⟩, [], "", 0, []⟩, .type ⟨0⟩ "System" "List" 1 none,
    .type ⟨0⟩ "" "Widget" 0 none, .method ⟨1⟩ "Make" 1 false]

/-- More lists, another type of an old name, and an override that the lists of widgets made before
do not get. -/
def listsLater : List Declaration :=
  [.typeInstance ⟨0⟩ [⟨2⟩], .type ⟨0⟩ "" "Widget" 0 none, .method ⟨0⟩ "Add" 0 true,
    .override ⟨0⟩ ⟨⟨1⟩, ⟨1⟩⟩, .override ⟨9⟩ ⟨⟨1⟩, ⟨1⟩⟩, .methodInstance ⟨0⟩ [⟨2⟩]]

theorem instances_last_lists : ∃ w' v,
    (populated listsOnly).typeInstance ⟨0⟩ [⟨1⟩] = .ok (w', ⟨2⟩) ∧
    v = listsLater.foldl after w' ∧ v.types.size = 5 ∧
    v.typeInstance ⟨0⟩ [⟨1⟩] = .ok (v, ⟨2⟩) ∧
    (¬ ∃ v', v.typeInstance ⟨0⟩ [⟨2⟩] = .ok (v', ⟨2⟩)) ∧
    (populated listsOnly).methodInfo ⟨0⟩ = v.methodInfo ⟨0⟩ := by
  obtain ⟨-, -, -, -, hagain, -, -, hmethods⟩ := instances_last listsOnly
  have hfirst : (populated listsOnly).typeInstance ⟨0⟩ [⟨1⟩] = .ok (_, ⟨2⟩) := rfl
  obtain ⟨hsame, honly⟩ := hagain ⟨0⟩ [⟨1⟩] _ ⟨2⟩ hfirst listsLater
  refine ⟨_, _, hfirst, rfl, by decide, hsame, fun hother => ?_, ?_⟩
  · exact absurd ((honly ⟨0⟩ [⟨2⟩]).mp hother).2 (by decide)
  · exact (hmethods ⟨0⟩ _ rfl (.typeInstance ⟨0⟩ [⟨1⟩] :: listsLater)).symm

end AheadOfTime.World
