import AheadOfTime.CompilationUnit
import AheadOfTime.Proofs.World.WellFormed
import Mathlib

/-! Programs compiled apart, each module by one unit. No two units emit the same type or method, and
some unit emits it just when one unit has all the modules that it mentions. What mentions modules of
several units, such as a list of one unit with items of another, is emitted by none of them. -/

namespace AheadOfTime

namespace World

variable {w : World} {ids : List ModuleId}

theorem emitsType_iff {t : TypeId} {tree : TypeTree} (h : w.tree t = .ok tree) :
    (CompilationUnit.modules ids).emitsType w t = true ↔ ∀ m ∈ tree.modules, m ∈ ids := by
  rw [CompilationUnit.emitsType, isWithin_eq_all_modules h]
  simp

theorem emitsMethod_iff {m : MethodId} {tree : MethodTree} (h : w.methodTree m = .ok tree) :
    (CompilationUnit.modules ids).emitsMethod w m = true ↔ ∀ n ∈ tree.modules, n ∈ ids := by
  rw [methodTree] at h
  obtain ⟨info, hinfo, h⟩ := Except.bind_eq_ok.mp h
  obtain ⟨owner, howner, h⟩ := Except.bind_eq_ok.mp h
  obtain ⟨args, hargs, h⟩ := Except.bind_eq_ok.mp h
  cases h
  have hall : info.args.all (w.isWithin ids) = (modulesOfAll args).all (· ∈ ids) :=
    all_isWithin_eq (fun a _ tree htree => isWithin_eq_all_modules htree ids) hargs
  rw [CompilationUnit.emitsMethod, hinfo, MethodTree.modules, List.forall_mem_append]
  dsimp only
  rw [hall, isWithin_eq_all_modules howner]
  simp

/-- The module that a type comes from is mentioned first, and it is a module of the world. -/
theorem WellFormed.exists_mem_modules (hw : w.WellFormed) {t : TypeId} {tree : TypeTree}
    (h : w.tree t = .ok tree) : ∃ m ∈ tree.modules, m ∈ w.modules := by
  cases hinfo : w.typeInfo t with
  | error e => rw [tree_eq_error hinfo] at h; cases h
  | ok info =>
    rw [tree_eq hinfo] at h
    obtain ⟨l, hl, h⟩ := Except.bind_eq_ok.mp h
    obtain ⟨args, -, h⟩ := Except.bind_eq_ok.mp h
    cases h
    obtain ⟨a, ha⟩ := (hw.types t info hinfo).module
    obtain ⟨hlt, -⟩ := Array.getElem?_eq_some_iff.mp (assembly_eq_ok.mp ha)
    refine ⟨l.module, List.mem_cons_self, ?_⟩
    rw [module_of_label hl, World.modules]
    exact List.mem_map.mpr ⟨info.module.index, List.mem_range.mpr hlt, rfl⟩

theorem WellFormed.exists_mem_methodModules (hw : w.WellFormed) {m : MethodId} {tree : MethodTree}
    (h : w.methodTree m = .ok tree) : ∃ n ∈ tree.modules, n ∈ w.modules := by
  rw [methodTree] at h
  obtain ⟨info, -, h⟩ := Except.bind_eq_ok.mp h
  obtain ⟨owner, howner, h⟩ := Except.bind_eq_ok.mp h
  obtain ⟨args, -, h⟩ := Except.bind_eq_ok.mp h
  cases h
  obtain ⟨n, hn, hworld⟩ := hw.exists_mem_modules howner
  exact ⟨n, List.mem_append_left _ hn, hworld⟩

section Apart

variable {ι : Type} {units : ι → List ModuleId} {ms : List ModuleId}

/-- Units without a common module of the world cannot both have all of some modules, if the world
has one of these. -/
theorem units_eq (hunits : ∀ m ∈ w.modules, ∃! i, m ∈ units i) (hms : ∃ m ∈ ms, m ∈ w.modules)
    {i j : ι} (hi : ∀ m ∈ ms, m ∈ units i) (hj : ∀ m ∈ ms, m ∈ units j) : i = j := by
  obtain ⟨m, hm, hw⟩ := hms
  exact (hunits m hw).unique (hi m hm) (hj m hm)

/-- What a unit emits if it has all of some modules is emitted by at most one unit. -/
theorem emitted_apart (hunits : ∀ m ∈ w.modules, ∃! i, m ∈ units i)
    (hms : ∃ m ∈ ms, m ∈ w.modules) {emits : ι → Prop}
    (hemits : ∀ i, emits i ↔ ∀ m ∈ ms, m ∈ units i) :
    (∀ i j, emits i → emits j → i = j) ∧ ((∃! i, emits i) ↔ ∃ i, ∀ m ∈ ms, m ∈ units i) := by
  have honce : ∀ i j, emits i → emits j → i = j := fun i j hi hj =>
    units_eq hunits hms ((hemits i).mp hi) ((hemits j).mp hj)
  refine ⟨honce, ?_, ?_⟩
  · rintro ⟨i, hi, -⟩
    exact ⟨i, (hemits i).mp hi⟩
  · rintro ⟨i, hi⟩
    exact ⟨i, (hemits i).mpr hi, fun j hj => honce j i hj ((hemits i).mpr hi)⟩

end Apart

theorem emitted_once_iff_modules_together (ds : List Declaration) {ι : Type}
    (units : ι → List ModuleId) (hunits : ∀ m ∈ (populated ds).modules, ∃! i, m ∈ units i) :
    let w := populated ds
    (∀ t, t.index < w.types.size → ∃ tree, w.tree t = .ok tree ∧
      let emits := fun i => (CompilationUnit.modules (units i)).emitsType w t = true
      (∀ i j, emits i → emits j → i = j) ∧
        ((∃! i, emits i) ↔ ∃ i, ∀ m ∈ tree.modules, m ∈ units i)) ∧
    ∀ m, m.index < w.methods.size → ∃ tree, w.methodTree m = .ok tree ∧
      let emits := fun i => (CompilationUnit.modules (units i)).emitsMethod w m = true
      (∀ i j, emits i → emits j → i = j) ∧
        ((∃! i, emits i) ↔ ∃ i, ∀ n ∈ tree.modules, n ∈ units i) := by
  intro w
  have hw : w.WellFormed := wellFormed_populated ds
  refine ⟨fun t ht => ?_, fun m hm => ?_⟩
  · obtain ⟨tree, htree⟩ := hw.tree_ok ht
    exact ⟨tree, htree, emitted_apart hunits (hw.exists_mem_modules htree)
      fun i => emitsType_iff htree⟩
  · obtain ⟨tree, htree⟩ := hw.methodTree_ok hm
    exact ⟨tree, htree, emitted_apart hunits (hw.exists_mem_methodModules htree)
      fun i => emitsMethod_iff htree⟩

/-- Lists of numbers and of widgets, where widgets come from another module than lists. -/
def widgetLists : List Declaration :=
  [.module ⟨"Core", ⟨1, 0, 0, 0⟩, [], "", 0, []⟩, .module ⟨"App", ⟨1, 0, 0, 0⟩, [], "", 0, []⟩,
    .type ⟨0⟩ "System" "List" 1 none, .type ⟨0⟩ "System" "Int32" 0 none,
    .type ⟨1⟩ "" "Widget" 0 none, .typeInstance ⟨0⟩ [⟨1⟩], .typeInstance ⟨0⟩ [⟨2⟩],
    .method ⟨2⟩ "Make" 1 false, .methodInstance ⟨0⟩ [⟨1⟩]]

/-- Each of two modules by itself. -/
def eachAlone (i : Fin 2) : List ModuleId := [⟨i⟩]

theorem eachAlone_parts : ∀ m ∈ (populated widgetLists).modules, ∃! i, m ∈ eachAlone i := by
  intro m hm
  obtain ⟨n, hn, rfl⟩ := List.mem_map.mp hm
  have hlt : n < 2 := List.mem_range.mp hn
  refine ⟨⟨n, hlt⟩, List.mem_singleton.mpr rfl, fun i hi => Fin.ext ?_⟩
  exact (congrArg ModuleId.index (List.mem_singleton.mp hi)).symm

theorem emitted_once_iff_modules_together_widgetLists :
    let w := populated widgetLists
    (∀ m ∈ w.modules, ∃! i, m ∈ eachAlone i) ∧
    (∃! i, (CompilationUnit.modules (eachAlone i)).emitsType w ⟨3⟩ = true) ∧
    (¬ ∃! i, (CompilationUnit.modules (eachAlone i)).emitsType w ⟨4⟩ = true) ∧
    ¬ ∃! i, (CompilationUnit.modules (eachAlone i)).emitsMethod w ⟨1⟩ = true := by
  have hnumbers : ((populated widgetLists).tree ⟨3⟩).map TypeTree.modules =
      .ok [⟨0⟩, ⟨0⟩] := by cbv
  have hwidgets : ((populated widgetLists).tree ⟨4⟩).map TypeTree.modules =
      .ok [⟨0⟩, ⟨1⟩] := by cbv
  have hmake : ((populated widgetLists).methodTree ⟨1⟩).map MethodTree.modules =
      .ok [⟨1⟩, ⟨0⟩] := by cbv
  obtain ⟨htypes, hmethods⟩ :=
    emitted_once_iff_modules_together widgetLists eachAlone eachAlone_parts
  obtain ⟨numbers, h₃, -, honce₃⟩ := htypes ⟨3⟩ (by decide)
  obtain ⟨widgets, h₄, -, honce₄⟩ := htypes ⟨4⟩ (by decide)
  obtain ⟨make, h₁, -, honce₁⟩ := hmethods ⟨1⟩ (by decide)
  rw [h₃] at hnumbers
  rw [h₄] at hwidgets
  rw [h₁] at hmake
  refine ⟨eachAlone_parts, honce₃.mpr ⟨0, ?_⟩, fun h => ?_, fun h => ?_⟩
  · rw [Except.ok.inj hnumbers]
    decide
  · obtain ⟨i, hi⟩ := honce₄.mp h
    rw [Except.ok.inj hwidgets] at hi
    revert i
    decide
  · obtain ⟨i, hi⟩ := honce₁.mp h
    rw [Except.ok.inj hmake] at hi
    revert i
    decide

/-- A list of one module with items of another is closed and there, but no unit emits it. -/
theorem not_each_emitted_once :
    let w := populated widgetLists
    (∀ m ∈ w.modules, ∃! i, m ∈ eachAlone i) ∧
    (∃ info, w.typeInfo ⟨4⟩ = .ok info ∧ info.isOpen = false) ∧
    (¬ ∃ i, (CompilationUnit.modules (eachAlone i)).emitsType w ⟨4⟩ = true) ∧
    w.isOpenMethod ⟨1⟩ = .ok false ∧
    ¬ ∃ i, (CompilationUnit.modules (eachAlone i)).emitsMethod w ⟨1⟩ = true :=
  ⟨eachAlone_parts, ⟨_, rfl, rfl⟩, by decide, rfl, by decide⟩

end World

end AheadOfTime
