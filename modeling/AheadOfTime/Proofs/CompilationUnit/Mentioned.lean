import AheadOfTime.Proofs.CompilationUnit
import Mathlib

/-! What the units of some modules contain. A type mentions the modules of all types that occur in
it, and those are the modules of its tree (`mem_modules_iff`). Main statement: a unit contains a type
or method just when it has all modules that this mentions, so that units grow with their modules,
what two units both contain is what their common modules contain, and apart from common modules
they contain nothing in common. -/

namespace AheadOfTime

namespace World

variable {w : World} {t : TypeId} {m : ModuleId}

def HasArg (w : World) (t a : TypeId) : Prop := ∃ info, w.typeInfo t = .ok info ∧ a ∈ info.args

/-- A type occurs in itself and, at any depth, in types with arguments that it occurs in. -/
def OccursIn (w : World) (u t : TypeId) : Prop := Relation.ReflTransGen w.HasArg t u

/-- A type mentions the modules of the types that occur in it. -/
def TypeMentions (w : World) (t : TypeId) (m : ModuleId) : Prop :=
  ∃ u, w.OccursIn u t ∧ w.moduleOf u = .ok m

/-- A method mentions what the type that it belongs to and its own arguments mention. -/
def MethodMentions (w : World) (x : MethodId) (m : ModuleId) : Prop :=
  ∃ info, w.methodInfo x = .ok info ∧
    (w.TypeMentions info.owner m ∨ ∃ a ∈ info.args, w.TypeMentions a m)

theorem typeMentions_iff {info : TypeInfo} (h : w.typeInfo t = .ok info) :
    w.TypeMentions t m ↔ m = info.module ∨ ∃ a ∈ info.args, w.TypeMentions a m := by
  have hown : w.moduleOf t = .ok m ↔ m = info.module := by
    rw [moduleOf, h]
    exact ⟨fun e => (Except.ok.inj e).symm, fun e => congrArg Except.ok e.symm⟩
  rw [← hown]
  constructor
  · rintro ⟨u, hu, hm⟩
    rcases Relation.ReflTransGen.cases_head hu with rfl | ⟨a, ⟨info', h', ha⟩, hau⟩
    · exact .inl hm
    · cases h.symm.trans h'
      exact .inr ⟨a, ha, u, hau, hm⟩
  · rintro (hm | ⟨a, ha, u, hau, hm⟩)
    · exact ⟨t, .refl, hm⟩
    · exact ⟨u, .head ⟨info, h, ha⟩ hau, hm⟩

theorem mem_modulesOfAll {trees : List TypeTree} :
    m ∈ modulesOfAll trees ↔ ∃ tree ∈ trees, m ∈ tree.modules := by
  induction trees with
  | nil => simp [modulesOfAll]
  | cons tree trees ih => simp [modulesOfAll, ih]

theorem mem_modulesOfAll_iff {ts : List TypeId} {trees : List TypeTree} (h : w.trees ts = .ok trees)
    (ih : ∀ a ∈ ts, ∀ tree, w.tree a = .ok tree → (m ∈ tree.modules ↔ w.TypeMentions a m)) :
    m ∈ modulesOfAll trees ↔ ∃ a ∈ ts, w.TypeMentions a m := by
  have htrees := Except.mapM_eq_ok.mp h
  rw [mem_modulesOfAll]
  constructor
  · rintro ⟨tree, htree, hm⟩
    obtain ⟨a, ha, hatree⟩ := exists_mem_left htrees tree htree
    exact ⟨a, ha, (ih a ha tree hatree).mp hm⟩
  · rintro ⟨a, ha, hm⟩
    obtain ⟨tree, htree, hatree⟩ := exists_mem_right htrees a ha
    exact ⟨tree, htree, (ih a ha tree hatree).mpr hm⟩

/-- The modules of a tree are those that its type mentions. The induction is on positions: arguments
come before what has them. -/
theorem mem_modules_iff {tree : TypeTree} (h : w.tree t = .ok tree) :
    m ∈ tree.modules ↔ w.TypeMentions t m := by
  induction hn : t.index using Nat.strongRecOn generalizing t tree with
  | ind n ih =>
    cases hinfo : w.typeInfo t with
    | error e => rw [tree_eq_error hinfo] at h; cases h
    | ok info =>
      rw [tree_eq hinfo] at h
      obtain ⟨l, hl, h⟩ := Except.bind_eq_ok.mp h
      obtain ⟨trees, htrees, h⟩ := Except.bind_eq_ok.mp h
      cases h
      have hargs : m ∈ modulesOfAll trees ↔ ∃ a ∈ info.args, w.TypeMentions a m :=
        mem_modulesOfAll_iff htrees fun a ha tree htree =>
          ih a.index (hn ▸ args_lt hinfo a ha) htree rfl
      rw [TypeTree.modules, List.mem_cons, hargs, module_of_label hl, typeMentions_iff hinfo]

theorem mem_methodModules_iff {x : MethodId} {tree : MethodTree} (h : w.methodTree x = .ok tree) :
    m ∈ tree.modules ↔ w.MethodMentions x m := by
  rw [methodTree] at h
  obtain ⟨info, hinfo, h⟩ := Except.bind_eq_ok.mp h
  obtain ⟨owner, howner, h⟩ := Except.bind_eq_ok.mp h
  obtain ⟨args, hargs, h⟩ := Except.bind_eq_ok.mp h
  cases h
  rw [MethodTree.modules, List.mem_append, mem_modules_iff howner,
    mem_modulesOfAll_iff hargs fun a _ tree htree => mem_modules_iff htree]
  constructor
  · intro hm
    exact ⟨info, hinfo, hm⟩
  · rintro ⟨info', hinfo', hm⟩
    cases hinfo.symm.trans hinfo'
    exact hm

theorem emitsType_eq_false {ids : List ModuleId} (h : ¬ t.index < w.types.size) :
    (CompilationUnit.modules ids).emitsType w t = false :=
  isWithin_eq_false (typeInfo_eq_error (Nat.le_of_not_lt h)) ids

theorem emitsMethod_eq_false {x : MethodId} {ids : List ModuleId}
    (h : ¬ x.index < w.methods.size) :
    (CompilationUnit.modules ids).emitsMethod w x = false := by
  rw [CompilationUnit.emitsMethod, methodInfo_eq_error (Nat.le_of_not_lt h)]

end World

/-- Units of some modules contain something just when it is there and they have all the modules that
it mentions. -/
structure ContainedByMentions (contained : List ModuleId → Bool) (present : Prop)
    (mentions : ModuleId → Prop) : Prop where
  contained_iff : present → ∀ ids, contained ids = true ↔ ∀ m, mentions m → m ∈ ids
  absent : ¬ present → ∀ ids, contained ids = false
  mono : ∀ ids ids', ids ⊆ ids' → contained ids = true → contained ids' = true
  inter : ∀ ids ids', contained (ids ∩ ids') = (contained ids && contained ids')
  disjoint : ∀ ids ids', ids.Disjoint ids' → ¬ (contained ids = true ∧ contained ids' = true)

/-- What mentions a module at all cannot be in units that have no module in common. -/
theorem ContainedByMentions.of_iff {contained : List ModuleId → Bool} {present : Prop}
    {mentions : ModuleId → Prop} (hmentions : present → ∃ m, mentions m)
    (hiff : present → ∀ ids, contained ids = true ↔ ∀ m, mentions m → m ∈ ids)
    (habsent : ¬ present → ∀ ids, contained ids = false) :
    ContainedByMentions contained present mentions := by
  have hpresent {ids : List ModuleId} (h : contained ids = true) : present := by
    by_contra hnot
    rw [habsent hnot] at h
    cases h
  refine ⟨hiff, habsent, fun ids ids' hsub h => ?_, fun ids ids' => ?_, ?_⟩
  · have hthere := hpresent h
    exact (hiff hthere ids').mpr fun m hm => hsub ((hiff hthere ids).mp h m hm)
  · by_cases hthere : present
    · rw [Bool.eq_iff_iff, Bool.and_eq_true, hiff hthere, hiff hthere, hiff hthere]
      simp only [List.mem_inter_iff]
      exact forall₂_and
    · simp [habsent hthere]
  · rintro ids ids' hdisjoint ⟨h, h'⟩
    have hthere := hpresent h
    obtain ⟨m, hm⟩ := hmentions hthere
    exact hdisjoint ((hiff hthere ids).mp h m hm) ((hiff hthere ids').mp h' m hm)

namespace World

variable {w : World}

theorem WellFormed.type_contained (hw : w.WellFormed) (t : TypeId) :
    ContainedByMentions (fun ids => (CompilationUnit.modules ids).emitsType w t)
      (t.index < w.types.size) (w.TypeMentions t) := by
  refine .of_iff (fun ht => ?_) (fun ht ids => ?_) fun ht _ => emitsType_eq_false ht
  · obtain ⟨tree, htree⟩ := hw.tree_ok ht
    obtain ⟨m, hm, -⟩ := hw.exists_mem_modules htree
    exact ⟨m, (mem_modules_iff htree).mp hm⟩
  · obtain ⟨tree, htree⟩ := hw.tree_ok ht
    rw [emitsType_iff htree]
    exact forall_congr' fun m => imp_congr_left (mem_modules_iff htree)

theorem WellFormed.method_contained (hw : w.WellFormed) (x : MethodId) :
    ContainedByMentions (fun ids => (CompilationUnit.modules ids).emitsMethod w x)
      (x.index < w.methods.size) (w.MethodMentions x) := by
  refine .of_iff (fun hx => ?_) (fun hx ids => ?_) fun hx _ => emitsMethod_eq_false hx
  · obtain ⟨tree, htree⟩ := hw.methodTree_ok hx
    obtain ⟨m, hm, -⟩ := hw.exists_mem_methodModules htree
    exact ⟨m, (mem_methodModules_iff htree).mp hm⟩
  · obtain ⟨tree, htree⟩ := hw.methodTree_ok hx
    rw [emitsMethod_iff htree]
    exact forall_congr' fun m => imp_congr_left (mem_methodModules_iff htree)

/-- Containment in units of modules is having all the modules that are mentioned, at any depth, for
the types and the methods of every world, and handles of nothing are in no such unit. -/
theorem units_contain_mentioned (ds : List Declaration) :
    let w := populated ds
    (∀ t, ContainedByMentions (fun ids => (CompilationUnit.modules ids).emitsType w t)
      (t.index < w.types.size) (w.TypeMentions t)) ∧
    ∀ x, ContainedByMentions (fun ids => (CompilationUnit.modules ids).emitsMethod w x)
      (x.index < w.methods.size) (w.MethodMentions x) :=
  ⟨(wellFormed_populated ds).type_contained, (wellFormed_populated ds).method_contained⟩

/-- A pair of a number and a widget, a pair of two such pairs, and a method of numbers that takes
that. Only widgets come from the second module. -/
def nestedPairs : List Declaration :=
  [.module ⟨"Core", ⟨1, 0, 0, 0⟩, [], "", 0, []⟩, .module ⟨"App", ⟨1, 0, 0, 0⟩, [], "", 0, []⟩,
    .type ⟨0⟩ "System" "Pair" 2 none, .type ⟨0⟩ "System" "Int32" 0 none,
    .type ⟨1⟩ "" "Widget" 0 none, .typeInstance ⟨0⟩ [⟨1⟩, ⟨2⟩], .typeInstance ⟨0⟩ [⟨3⟩, ⟨3⟩],
    .method ⟨1⟩ "Show" 1 false, .methodInstance ⟨0⟩ [⟨4⟩]]

theorem units_contain_mentioned_nestedPairs :
    let w := populated nestedPairs
    w.TypeMentions ⟨4⟩ ⟨1⟩ ∧ w.MethodMentions ⟨1⟩ ⟨1⟩ ∧
    (CompilationUnit.modules [⟨0⟩]).emitsType w ⟨4⟩ = false ∧
    (CompilationUnit.modules [⟨1⟩, ⟨0⟩]).emitsType w ⟨4⟩ = true ∧
    (CompilationUnit.modules [⟨0⟩]).emitsMethod w ⟨1⟩ = false ∧
    (CompilationUnit.modules [⟨1⟩, ⟨0⟩]).emitsType w ⟨9⟩ = false := by
  intro w
  obtain ⟨htypes, hmethods⟩ := units_contain_mentioned nestedPairs
  have harg {t a : TypeId} {info : TypeInfo} (h : w.typeInfo t = .ok info) (ha : a ∈ info.args) :
      w.HasArg t a := ⟨info, h, ha⟩
  have hpair : w.HasArg ⟨4⟩ ⟨3⟩ := harg rfl (by decide)
  have hwidget : w.HasArg ⟨3⟩ ⟨2⟩ := harg rfl (by decide)
  have hmentions : w.TypeMentions ⟨4⟩ ⟨1⟩ := ⟨⟨2⟩, .head hpair (.single hwidget), rfl⟩
  have hmethod : w.MethodMentions ⟨1⟩ ⟨1⟩ := ⟨_, rfl, .inr ⟨⟨4⟩, by decide, hmentions⟩⟩
  refine ⟨hmentions, hmethod, ?_, by decide, ?_, (htypes ⟨9⟩).absent (by decide) _⟩
  · rw [← Bool.not_eq_true, (htypes ⟨4⟩).contained_iff (by decide)]
    intro hall
    exact absurd (hall _ hmentions) (by decide)
  · rw [← Bool.not_eq_true, (hmethods ⟨1⟩).contained_iff (by decide)]
    intro hall
    exact absurd (hall _ hmethod) (by decide)

end World

end AheadOfTime
