import AheadOfTime.Proofs.World.Steps

/-! Every populated world is well formed: whatever an entry refers to is there, bases, definitions
and arguments were made before the type that has them, and an instantiation is its definition with
as many arguments as that has parameters. So the trees of its types and methods can be written out.
The induction is on the steps: what an entry needs stays when the world grows, so a step only has
to account for the entry that it makes. -/

namespace AheadOfTime

/-- A type is the closed form of a definition. -/
structure TypeInfo.InstanceOf (info d : TypeInfo) (args : List TypeId) : Prop where
  isDefinition : d.instantiation = none
  arity : d.parameters = args.length
  args_ne_nil : args ≠ []
  closed : info.parameters = 0
  module : info.module = d.module
  scope : info.scope = d.scope
  name : info.name = d.name

structure MethodInfo.InstanceOf (info d : MethodInfo) (args : List TypeId) : Prop where
  isDefinition : d.instantiation = none
  arity : d.parameters = args.length
  args_ne_nil : args ≠ []
  closed : info.parameters = 0
  owner : info.owner = d.owner
  name : info.name = d.name

namespace World

variable {w w' : World}

/-- What a type needs of its world, arguments apart: those the world itself keeps in order. -/
structure TypeFits (w : World) (t : TypeId) (info : TypeInfo) : Prop where
  module : ∃ a, w.assembly info.module = .ok a
  base : ∀ b, info.base = some b → b.index < t.index
  instanceOf : ∀ i, info.instantiation = some i → i.definition.index < t.index ∧
    ∃ d, w.typeInfo i.definition = .ok d ∧ info.InstanceOf d i.args
  declaration : ∀ o ∈ info.overrides, ∃ d, w.methodInfo o.declaration = .ok d ∧ d.isVirtual = true
  implementation : ∀ o ∈ info.overrides, ∃ m, w.methodInfo o.implementation = .ok m

structure MethodFits (w : World) (m : MethodId) (info : MethodInfo) : Prop where
  owner : ∃ t, w.typeInfo info.owner = .ok t
  args : ∀ a ∈ info.args, ∃ t, w.typeInfo a = .ok t
  instanceOf : ∀ i, info.instantiation = some i → i.definition.index < m.index ∧
    ∃ d, w.methodInfo i.definition = .ok d ∧ info.InstanceOf d i.args

structure WellFormed (w : World) : Prop where
  types : ∀ t info, w.typeInfo t = .ok info → w.TypeFits t info
  methods : ∀ m info, w.methodInfo m = .ok info → w.MethodFits m info

theorem Grows.typeFits {t : TypeId} {info : TypeInfo} (hg : Grows w w') (h : w.TypeFits t info) :
    w'.TypeFits t info where
  module := h.module.imp fun a ha => hg.assemblies _ a ha
  base := h.base
  instanceOf i hi := by
    obtain ⟨hlt, d, hd, hof⟩ := h.instanceOf i hi
    obtain ⟨more, hd'⟩ := hg.types _ d hd
    exact ⟨hlt, _, hd', { hof with }⟩
  declaration o ho := by
    obtain ⟨d, hd, hvirtual⟩ := h.declaration o ho
    exact ⟨d, hg.methods _ d hd, hvirtual⟩
  implementation o ho := (h.implementation o ho).imp fun m hm => hg.methods _ m hm

theorem Grows.exists_type {t : TypeId} (hg : Grows w w') (h : ∃ info, w.typeInfo t = .ok info) :
    ∃ info, w'.typeInfo t = .ok info := by
  obtain ⟨info, hinfo⟩ := h
  obtain ⟨more, hinfo'⟩ := hg.types t info hinfo
  exact ⟨_, hinfo'⟩

theorem Grows.methodFits {m : MethodId} {info : MethodInfo} (hg : Grows w w')
    (h : w.MethodFits m info) : w'.MethodFits m info where
  owner := hg.exists_type h.owner
  args a ha := hg.exists_type (h.args a ha)
  instanceOf i hi := by
    obtain ⟨hlt, d, hd, hof⟩ := h.instanceOf i hi
    exact ⟨hlt, d, hg.methods _ d hd, hof⟩

/-- An entry that was there before still fits; so only a new one, or one that was changed, has to
be looked at. -/
theorem WellFormed.grow (h : w.WellFormed) (hg : Grows w w')
    (htypes : ∀ t info, w'.typeInfo t = .ok info → w.typeInfo t = .ok info ∨ w'.TypeFits t info)
    (hmethods : ∀ m info, w'.methodInfo m = .ok info →
      w.methodInfo m = .ok info ∨ w'.MethodFits m info) : w'.WellFormed := by
  refine ⟨fun t info ht => ?_, fun m info hm => ?_⟩
  · rcases htypes t info ht with hold | hnew
    · exact hg.typeFits (h.types t info hold)
    · exact hnew
  · rcases hmethods m info hm with hold | hnew
    · exact hg.methodFits (h.methods m info hold)
    · exact hnew

theorem WellFormed.pushType {info : TypeInfo} (h : w.WellFormed)
    (hargs : ∀ a ∈ info.args, a.index < w.types.size) (hfits : w.TypeFits ⟨w.types.size⟩ info) :
    (w.pushType info hargs).WellFormed := by
  have hg := grows_pushType w info hargs
  refine h.grow hg (fun t x ht => ?_) fun _ _ hm => .inl hm
  rw [typeInfo_eq_ok, World.pushType, Array.getElem?_push] at ht
  split at ht
  · rename_i hlast
    cases ht
    have hid : t = ⟨w.types.size⟩ := by cases t; simpa using hlast
    exact .inr (hid ▸ hg.typeFits hfits)
  · exact .inl (typeInfo_eq_ok.mpr ht)

theorem WellFormed.pushMethod {info : MethodInfo} (h : w.WellFormed)
    (hfits : w.MethodFits ⟨w.methods.size⟩ info) :
    WellFormed { w with methods := w.methods.push info } := by
  have hg := grows_pushMethod w info
  refine h.grow hg (fun _ _ ht => .inl ht) fun m x hm => ?_
  rw [methodInfo_eq_ok, Array.getElem?_push] at hm
  split at hm
  · rename_i hlast
    cases hm
    have hid : m = ⟨w.methods.size⟩ := by cases m; simpa using hlast
    exact .inr (hid ▸ hg.methodFits hfits)
  · exact .inl (methodInfo_eq_ok.mpr hm)

theorem WellFormed.pushOverride {i : Nat} {o : Override} (h : w.WellFormed)
    (hdeclaration : ∃ d, w.methodInfo o.declaration = .ok d ∧ d.isVirtual = true)
    (himplementation : ∃ m, w.methodInfo o.implementation = .ok m) :
    (w.pushOverride i o).WellFormed := by
  have hg := grows_pushOverride w i o
  refine h.grow hg (fun t x ht => ?_) fun _ _ hm => .inl hm
  rw [typeInfo_eq_ok, World.pushOverride, Array.getElem?_modify] at ht
  split at ht
  · obtain ⟨old, hold, rfl⟩ := Option.map_eq_some_iff.mp ht
    have hfits := hg.typeFits (h.types t old (typeInfo_eq_ok.mpr hold))
    refine .inr { hfits with
      instanceOf := fun j hj => ?_, declaration := fun p hp => ?_, implementation := fun p hp => ?_ }
    · obtain ⟨hlt, d, hd, hof⟩ := hfits.instanceOf j hj
      exact ⟨hlt, d, hd, { hof with }⟩
    · rcases List.mem_append.mp hp with hp | hp
      · exact hfits.declaration p hp
      · exact List.mem_singleton.mp hp ▸ hdeclaration
    · rcases List.mem_append.mp hp with hp | hp
      · exact hfits.implementation p hp
      · exact List.mem_singleton.mp hp ▸ himplementation
  · exact .inl (typeInfo_eq_ok.mpr ht)

/-- A definition's needs are met for its instantiation too, which comes later. -/
theorem TypeFits.close {d : TypeInfo} {definition : TypeId} {args : List TypeId}
    (h : w.TypeFits definition d) (hd : w.typeInfo definition = .ok d)
    (hdef : d.instantiation = none) (hpos : 0 < d.parameters) (harity : d.parameters = args.length) :
    w.TypeFits ⟨w.types.size⟩ (d.close ⟨definition, args⟩) where
  module := h.module
  base b hb := Nat.lt_trans (h.base b hb) (exists_typeInfo.mp ⟨d, hd⟩)
  instanceOf i hi := by
    cases hi
    have hne : args ≠ [] := by rintro rfl; simp_all
    exact ⟨exists_typeInfo.mp ⟨d, hd⟩, d, hd, hdef, harity, hne, rfl, rfl, rfl, rfl⟩
  declaration := h.declaration
  implementation := h.implementation

theorem MethodFits.close {d : MethodInfo} {definition : MethodId} {args : List TypeId}
    (h : w.MethodFits definition d) (hd : w.methodInfo definition = .ok d)
    (hdef : d.instantiation = none) (hpos : 0 < d.parameters) (harity : d.parameters = args.length)
    (hargs : ∀ a ∈ args, a.index < w.types.size) :
    w.MethodFits ⟨w.methods.size⟩ (d.close ⟨definition, args⟩) where
  owner := h.owner
  args a ha := exists_typeInfo.mpr (hargs a ha)
  instanceOf i hi := by
    cases hi
    have hne : args ≠ [] := by rintro rfl; simp_all
    exact ⟨exists_methodInfo.mp ⟨d, hd⟩, d, hd, hdef, harity, hne, rfl, rfl, rfl⟩

theorem declare_wellFormed {d : Declaration} {e : Option EntityId} (hw : w.WellFormed)
    (h : w.declare d = .ok (w', e)) : w'.WellFormed := by
  cases d with
  | module a =>
    cases h
    exact hw.grow (grows_addAssembly w a) (fun _ _ ht => .inl ht) fun _ _ hm => .inl hm
  | type module scope name parameters base =>
    obtain ⟨⟨w₁, t⟩, h₁, h⟩ := Except.map_eq_ok.mp h
    cases h
    obtain ⟨hmodule, hbase, -, hargs, rfl⟩ := addType_ok h₁
    refine hw.pushType hargs ⟨hmodule, fun b hb => ?_, by simp, by simp, by simp⟩
    exact exists_typeInfo.mp (hbase b hb)
  | method owner name parameters isVirtual =>
    obtain ⟨⟨w₁, m⟩, h₁, h⟩ := Except.map_eq_ok.mp h
    cases h
    obtain ⟨howner, -, rfl⟩ := addMethod_ok h₁
    exact hw.pushMethod ⟨howner, by simp [MethodInfo.args, Instantiation.argsOf], by simp⟩
  | override t o =>
    obtain ⟨w₁, h₁, h⟩ := Except.map_eq_ok.mp h
    cases h
    obtain ⟨hdeclaration, himplementation, -, rfl⟩ := addOverride_ok h₁
    exact hw.pushOverride hdeclaration himplementation
  | typeInstance definition args =>
    obtain ⟨⟨w₁, t⟩, h₁, h⟩ := Except.map_eq_ok.mp h
    cases h
    obtain ⟨d, hd, hdef, hpos, harity, -, ⟨-, hsame⟩ | ⟨-, -, hargs, rfl⟩⟩ := typeInstance_ok h₁
    · exact hsame ▸ hw
    · have hpush := hw.pushType hargs
        ((hw.types definition d hd).close hd hdef hpos harity)
      refine ⟨fun t info ht => ?_, fun m info hm => ?_⟩
      · exact { hpush.types t info ht with }
      · exact { hpush.methods m info hm with }
  | methodInstance definition args =>
    obtain ⟨⟨w₁, m⟩, h₁, h⟩ := Except.map_eq_ok.mp h
    cases h
    obtain ⟨d, hd, hdef, hpos, harity, hargs, ⟨-, hsame⟩ | ⟨-, -, rfl⟩⟩ := methodInstance_ok h₁
    · exact hsame ▸ hw
    · have hpush := hw.pushMethod
        ((hw.methods definition d hd).close hd hdef hpos harity hargs)
      refine ⟨fun t info ht => ?_, fun m info hm => ?_⟩
      · exact { hpush.types t info ht with }
      · exact { hpush.methods m info hm with }

theorem wellFormed_after (h : w.WellFormed) (d : Declaration) : (w.after d).WellFormed := by
  unfold after
  split
  · rename_i hd
    exact declare_wellFormed h hd
  · exact h

theorem wellFormed_empty : empty.WellFormed :=
  ⟨fun t _ ht => by simp [typeInfo_eq_ok, empty] at ht,
    fun m _ hm => by simp [methodInfo_eq_ok, empty] at hm⟩

theorem wellFormed_foldl (ds : List Declaration) (h : w.WellFormed) :
    (ds.foldl after w).WellFormed := by
  induction ds generalizing w with
  | nil => exact h
  | cons d ds ih => exact ih (wellFormed_after h d)

theorem wellFormed_populated (ds : List Declaration) : (populated ds).WellFormed :=
  wellFormed_foldl ds wellFormed_empty

theorem WellFormed.label_ok (h : w.WellFormed) {t : TypeId} {info : TypeInfo}
    (ht : w.typeInfo t = .ok info) : ∃ l, w.label info = .ok l := by
  obtain ⟨a, ha⟩ := (h.types t info ht).module
  exact ⟨_, Except.map_eq_ok.mpr ⟨a, ha, rfl⟩⟩

/-- Every type can be written out, by recursion on its position: arguments come before it. -/
theorem WellFormed.tree_ok (h : w.WellFormed) {t : TypeId} (ht : t.index < w.types.size) :
    ∃ tree, w.tree t = .ok tree := by
  obtain ⟨info, hinfo⟩ := exists_typeInfo.mpr ht
  have hargs : ∀ a ∈ info.args, ∃ tree, w.tree a = .ok tree := by
    intro a ha
    have hlt := args_lt hinfo a ha
    exact h.tree_ok (Nat.lt_trans hlt ht)
  obtain ⟨l, hl⟩ := h.label_ok hinfo
  obtain ⟨args, htrees⟩ := Except.mapM_ok hargs
  exact ⟨_, by rw [tree_eq hinfo, hl, trees, htrees]; rfl⟩
termination_by t.index

theorem WellFormed.methodTree_ok (h : w.WellFormed) {m : MethodId} (hm : m.index < w.methods.size) :
    ∃ tree, w.methodTree m = .ok tree := by
  obtain ⟨info, hinfo⟩ := exists_methodInfo.mpr hm
  have hfits := h.methods m info hinfo
  obtain ⟨owner, howner⟩ := h.tree_ok (exists_typeInfo.mp hfits.owner)
  obtain ⟨args, hargs⟩ := Except.mapM_ok fun a ha => h.tree_ok (exists_typeInfo.mp (hfits.args a ha))
  exact ⟨_, by rw [methodTree, hinfo]; simp only [trees, howner, hargs, bind, Except.bind]; rfl⟩

end World

end AheadOfTime
