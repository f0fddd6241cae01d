import AheadOfTime.Proofs.World.Descent
import AheadOfTime.Proofs.World.WellFormed
import Mathlib

/-! Whatever a populated world refers to is there, and nothing refers to itself by way of bases,
definitions or arguments. So going down from a type comes to an end, and a name or a symbol is
missing only for a handle that was never given out. -/

namespace AheadOfTime.World

variable {w : World}

theorem WellFormed.tree_eq_error_iff (h : w.WellFormed) {t : TypeId} {e : WorldError} :
    w.tree t = .error e ↔ w.types.size ≤ t.index ∧ e = .noType t := by
  rcases Nat.lt_or_ge t.index w.types.size with ht | ht
  · obtain ⟨tree, htree⟩ := h.tree_ok ht
    simp [htree, Nat.not_le.mpr ht]
  · simp [tree_eq_error (typeInfo_eq_error ht), ht, eq_comm]

theorem WellFormed.methodTree_eq_error_iff (h : w.WellFormed) {m : MethodId} {e : WorldError} :
    w.methodTree m = .error e ↔ w.methods.size ≤ m.index ∧ e = .noMethod m := by
  rcases Nat.lt_or_ge m.index w.methods.size with hm | hm
  · obtain ⟨tree, htree⟩ := h.methodTree_ok hm
    simp [htree, Nat.not_le.mpr hm]
  · have htree : w.methodTree m = .error (.noMethod m) := by
      rw [methodTree, methodInfo_eq_error hm]
      rfl
    simp [htree, hm, eq_comm]

/-- What a type is made after: its base and its arguments. -/
theorem WellFormed.exists_of_base_or_arg (h : w.WellFormed) {t u : TypeId} {info : TypeInfo}
    (ht : w.typeInfo t = .ok info) (hu : info.base = some u ∨ u ∈ info.args) :
    u.index < t.index ∧ ∃ x, w.typeInfo u = .ok x := by
  have hlt : u.index < t.index := hu.elim ((h.types t info ht).base u) (args_lt ht u)
  exact ⟨hlt, exists_typeInfo.mpr (Nat.lt_trans hlt (exists_typeInfo.mp ⟨info, ht⟩))⟩

theorem typeSymbol_eq_map (t : TypeId) :
    w.typeSymbol t = ((w.tree t).map fun tree => Symbol.typeBody tree.identity).map
      Symbol.ofBody := by
  rw [typeSymbol, typeIdentity]
  cases w.tree t <;> rfl

theorem methodSymbol_eq_map (m : MethodId) :
    w.methodSymbol m = (w.methodTree m).map fun tree =>
      Symbol.ofMethodBody (Symbol.typeBody tree.owner.identity) tree.name
        (tree.args.map fun t => Symbol.typeBody t.identity) := by
  rw [methodSymbol, methodIdentity]
  cases w.methodTree m with
  | error e => rfl
  | ok tree =>
    simp only [Except.map, Symbol.ofMethod, Symbol.methodBody, MethodTree.identity,
      Symbol.argsBody_eq, identities_eq_map, List.map_map]
    rfl

theorem methodName_eq_map (m : MethodId) :
    w.methodName m = (w.methodTree m).map fun tree =>
      MethodTree.named tree.owner.displayName tree.name
        (tree.args.map TypeTree.displayName) := by
  rw [methodName]
  congr 1
  funext tree
  rw [MethodTree.displayName, displayNames_eq_map, MethodTree.named]

theorem references_resolve (ds : List Declaration) :
    let w := populated ds
    w.WellFormed ∧
    (∀ t info, w.typeInfo t = .ok info → ∀ u, info.base = some u ∨ u ∈ info.args →
      u.index < t.index ∧ ∃ x, w.typeInfo u = .ok x) ∧
    (∀ depth, w.types.size < depth →
      (∀ t, w.descend TypeLabel.named depth t = .now (w.typeName t)) ∧
      (∀ m, w.descendMethod TypeLabel.named MethodTree.named depth m = .now (w.methodName m)) ∧
      (∀ t, Symbol.ofBody <$> w.descend Symbol.bodyOf depth t = .now (w.typeSymbol t)) ∧
      (∀ m, w.descendMethod Symbol.bodyOf Symbol.ofMethodBody depth m =
        .now (w.methodSymbol m)) ∧
      ∀ ids,
        (∀ t, w.isWithinTo ids depth t = some ((CompilationUnit.modules ids).emitsType w t)) ∧
        ∀ m, w.emitsMethodTo ids depth m =
          some ((CompilationUnit.modules ids).emitsMethod w m)) ∧
    (∀ name ∈ [w.typeName, w.typeSymbol, w.descriptorSymbol, w.typeDictionarySymbol],
      ∀ t e, name t = .error e ↔ w.types.size ≤ t.index ∧ e = .noType t) ∧
    ∀ name ∈ [w.methodName, w.methodSymbol, w.methodDictionarySymbol, w.virtualUseSymbol],
      ∀ m e, name m = .error e ↔ w.methods.size ≤ m.index ∧ e = .noMethod m := by
  intro w
  have hw : w.WellFormed := wellFormed_populated ds
  refine ⟨hw, fun t info ht u hu => hw.exists_of_base_or_arg ht hu,
    fun depth hdepth => ⟨?_, ?_, ?_, ?_, fun ids => ⟨?_, ?_⟩⟩, ?_, ?_⟩
  · exact descend_eq_of_size_lt folds_displayName hdepth
  · intro m
    rw [descendMethod_eq folds_displayName hdepth, methodName_eq_map]
  · intro t
    rw [descend_eq_of_size_lt Symbol.folds_typeBody hdepth, Bounded.map_now, typeSymbol_eq_map]
  · intro m
    rw [descendMethod_eq Symbol.folds_typeBody hdepth, methodSymbol_eq_map]
  · exact isWithinTo_eq_of_size_lt ids hdepth
  · exact emitsMethodTo_eq ids hdepth
  · intro name hname t e
    rw [← hw.tree_eq_error_iff]
    simp only [List.mem_cons, List.not_mem_nil, or_false] at hname
    rcases hname with rfl | rfl | rfl | rfl
    all_goals
      simp only [typeName, typeSymbol, descriptorSymbol, typeDictionarySymbol, typeIdentity,
        Except.map_eq_error]
  · intro name hname m e
    rw [← hw.methodTree_eq_error_iff]
    simp only [List.mem_cons, List.not_mem_nil, or_false] at hname
    rcases hname with rfl | rfl | rfl | rfl
    all_goals
      simp only [methodName, methodSymbol, methodDictionarySymbol, virtualUseSymbol,
        methodIdentity, Except.map_eq_error]

/-- Lists of lists of widgets, a panel that is one of these lists, and steps that are refused. -/
def nestedLists : List Declaration :=
  [.module ⟨"Core", ⟨1, 0, 0, 0⟩, [], "", 0, []⟩, .module ⟨"App", ⟨1, 0, 0, 0⟩, [], "", 0, []⟩,
    .type ⟨0⟩ "System" "List" 1 none, .type ⟨1⟩ "" "Widget" 0 none, .typeInstance ⟨0⟩ [⟨1⟩],
    .typeInstance ⟨0⟩ [⟨2⟩], .typeInstance ⟨2⟩ [⟨1⟩], .type ⟨1⟩ "" "Panel" 0 (some ⟨3⟩),
    .type ⟨1⟩ "" "Lost" 0 (some ⟨9⟩), .method ⟨0⟩ "Convert" 1 true, .method ⟨4⟩ "Convert" 1 false,
    .override ⟨4⟩ ⟨⟨0⟩, ⟨1⟩⟩, .override ⟨4⟩ ⟨⟨1⟩, ⟨0⟩⟩, .methodInstance ⟨1⟩ [⟨2⟩]]

theorem references_resolve_nestedLists :
    let w := populated nestedLists
    w.types.size = 5 ∧ w.methods.size = 3 ∧ w.WellFormed ∧
      (∃ x, w.typeInfo ⟨3⟩ = .ok x) ∧
      w.typeName ⟨3⟩ = .ok "System.List<System.List<Widget>>" ∧
      w.methodName ⟨2⟩ = .ok "Panel.Convert<System.List<Widget>>" ∧
      w.typeSymbol ⟨3⟩ = .ok "_ilc_Core$NSystem$$List$LTCore$NSystem$$List$LTApp$$Widget$GT$GT" ∧
      (CompilationUnit.modules [⟨0⟩]).emitsType w ⟨3⟩ = false ∧
      (CompilationUnit.modules [⟨1⟩, ⟨0⟩]).emitsMethod w ⟨2⟩ = true ∧
      w.typeSymbol ⟨5⟩ = .error (.noType ⟨5⟩) ∧
      w.methodName ⟨3⟩ = .error (.noMethod ⟨3⟩) := by
  have htypes : (populated nestedLists).types.size = 5 := by cbv
  have hmethods : (populated nestedLists).methods.size = 3 := by cbv
  have hpanel : (populated nestedLists).typeInfo ⟨4⟩ =
      .ok ⟨⟨1⟩, "", "Panel", 0, none, some ⟨3⟩, [⟨⟨0⟩, ⟨1⟩⟩]⟩ := by cbv
  obtain ⟨hfits, href, hdescent, hnoType, hnoMethod⟩ := references_resolve nestedLists
  obtain ⟨hname, hmethod, hsymbol, -, hwithin⟩ := hdescent 6 (by rw [htypes]; decide)
  refine ⟨htypes, hmethods, hfits, (href ⟨4⟩ _ hpanel ⟨3⟩ (.inl rfl)).2, ?_, ?_, ?_, ?_, ?_, ?_, ?_⟩
  · exact Bounded.now_inj ((hname ⟨3⟩).symm.trans (by cbv))
  · exact Bounded.now_inj ((hmethod ⟨2⟩).symm.trans (by cbv))
  · exact Bounded.now_inj ((hsymbol ⟨3⟩).symm.trans (by cbv))
  · exact Option.some.inj (((hwithin [⟨0⟩]).1 ⟨3⟩).symm.trans (by cbv))
  · exact Option.some.inj (((hwithin [⟨1⟩, ⟨0⟩]).2 ⟨2⟩).symm.trans (by cbv))
  · exact (hnoType _ (by simp) ⟨5⟩ _).mpr ⟨Nat.le_of_eq htypes, rfl⟩
  · exact (hnoMethod _ (by simp) ⟨3⟩ _).mpr ⟨Nat.le_of_eq hmethods, rfl⟩

end AheadOfTime.World
