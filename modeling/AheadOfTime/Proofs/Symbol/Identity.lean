import AheadOfTime.Proofs.Symbol.Injective
import AheadOfTime.Proofs.World.WellFormed

/-! Symbols of the types and methods of populated worlds. Two of them agree exactly when what they
name has one structure, whichever worlds the two were made in and in whatever order. -/

namespace AheadOfTime.World

variable {w : World}

theorem mapM_typeIdentity (ts : List TypeId) :
    ts.mapM w.typeIdentity = (w.trees ts).map identities := by
  induction ts with
  | nil => rfl
  | cons t ts ih =>
    rw [trees] at ih ⊢
    rw [List.mapM_cons, List.mapM_cons, ih, typeIdentity]
    cases w.tree t with
    | error e => rfl
    | ok tree => cases ts.mapM w.tree <;> rfl

/-- The identity of a type says its assembly, namespace and name, and the identities of its
arguments. -/
theorem typeIdentity_eq {t : TypeId} {info : TypeInfo} (h : w.typeInfo t = .ok info) :
    w.typeIdentity t = (do
      let a ← w.assembly info.module
      let args ← info.args.mapM w.typeIdentity
      return .mk a.identity.name info.scope info.name args) := by
  rw [typeIdentity, tree_eq h, label, mapM_typeIdentity]
  cases w.assembly info.module with
  | error e => rfl
  | ok a => cases w.trees info.args <;> rfl

theorem methodIdentity_eq {m : MethodId} {info : MethodInfo} (h : w.methodInfo m = .ok info) :
    w.methodIdentity m = (do
      let owner ← w.typeIdentity info.owner
      let args ← info.args.mapM w.typeIdentity
      return ⟨owner, info.name, args⟩) := by
  rw [methodIdentity, methodTree, h, typeIdentity, mapM_typeIdentity]
  simp only [bind, Except.bind]
  cases w.tree info.owner with
  | error e => rfl
  | ok owner => cases w.trees info.args <;> rfl

theorem WellFormed.typeIdentity_ok (h : w.WellFormed) {t : TypeId} (ht : t.index < w.types.size) :
    ∃ i, w.typeIdentity t = .ok i := by
  obtain ⟨tree, htree⟩ := h.tree_ok ht
  exact ⟨tree.identity, by rw [typeIdentity, htree]; rfl⟩

theorem WellFormed.methodIdentity_ok (h : w.WellFormed) {m : MethodId}
    (hm : m.index < w.methods.size) : ∃ i, w.methodIdentity m = .ok i := by
  obtain ⟨tree, htree⟩ := h.methodTree_ok hm
  exact ⟨tree.identity, by rw [methodIdentity, htree]; rfl⟩

/-- Symbols tell apart exactly what differs in identity, across any two populated worlds; and those
of methods, of types and of descriptors are never the same. -/
theorem symbols_eq_iff_identities_eq (ds₁ ds₂ : List Declaration) :
    (∀ t₁ t₂ : TypeId, t₁.index < (populated ds₁).types.size →
      t₂.index < (populated ds₂).types.size →
      ∃ i₁ i₂ s₁ s₂, (populated ds₁).typeIdentity t₁ = .ok i₁ ∧
        (populated ds₂).typeIdentity t₂ = .ok i₂ ∧ (populated ds₁).typeSymbol t₁ = .ok s₁ ∧
        (populated ds₂).typeSymbol t₂ = .ok s₂ ∧ (s₁ = s₂ ↔ i₁ = i₂)) ∧
    (∀ m₁ m₂ : MethodId, m₁.index < (populated ds₁).methods.size →
      m₂.index < (populated ds₂).methods.size →
      ∃ i₁ i₂ s₁ s₂, (populated ds₁).methodIdentity m₁ = .ok i₁ ∧
        (populated ds₂).methodIdentity m₂ = .ok i₂ ∧ (populated ds₁).methodSymbol m₁ = .ok s₁ ∧
        (populated ds₂).methodSymbol m₂ = .ok s₂ ∧ (s₁ = s₂ ↔ i₁ = i₂)) ∧
    (∀ (m : MethodId) (t : TypeId), m.index < (populated ds₁).methods.size →
      t.index < (populated ds₂).types.size →
      ∃ s u d, (populated ds₁).methodSymbol m = .ok s ∧ (populated ds₂).typeSymbol t = .ok u ∧
        (populated ds₂).descriptorSymbol t = .ok d ∧ s ≠ u ∧ s ≠ d) ∧
    (∀ t₁ t₂ : TypeId, t₁.index < (populated ds₁).types.size →
      t₂.index < (populated ds₂).types.size →
      ∃ s d, (populated ds₁).typeSymbol t₁ = .ok s ∧ (populated ds₂).descriptorSymbol t₂ = .ok d ∧
        s ≠ d) := by
  have hw₁ := wellFormed_populated ds₁
  have hw₂ := wellFormed_populated ds₂
  refine ⟨fun t₁ t₂ h₁ h₂ => ?_, fun m₁ m₂ h₁ h₂ => ?_, fun m t h₁ h₂ => ?_, fun t₁ t₂ h₁ h₂ => ?_⟩
  · obtain ⟨i₁, hi₁⟩ := hw₁.typeIdentity_ok h₁
    obtain ⟨i₂, hi₂⟩ := hw₂.typeIdentity_ok h₂
    exact ⟨i₁, i₂, Symbol.ofType i₁, Symbol.ofType i₂, hi₁, hi₂, by rw [typeSymbol, hi₁]; rfl,
      by rw [typeSymbol, hi₂]; rfl, Symbol.ofType_inj⟩
  · obtain ⟨i₁, hi₁⟩ := hw₁.methodIdentity_ok h₁
    obtain ⟨i₂, hi₂⟩ := hw₂.methodIdentity_ok h₂
    exact ⟨i₁, i₂, Symbol.ofMethod i₁, Symbol.ofMethod i₂, hi₁, hi₂, by rw [methodSymbol, hi₁]; rfl,
      by rw [methodSymbol, hi₂]; rfl, Symbol.ofMethod_inj⟩
  · obtain ⟨i, hi⟩ := hw₁.methodIdentity_ok h₁
    obtain ⟨j, hj⟩ := hw₂.typeIdentity_ok h₂
    exact ⟨Symbol.ofMethod i, Symbol.ofType j, Symbol.ofDescriptor j, by rw [methodSymbol, hi]; rfl,
      by rw [typeSymbol, hj]; rfl, by rw [descriptorSymbol, hj]; rfl, Symbol.ofMethod_ne_ofType i j,
      Symbol.ofMethod_ne_ofDescriptor i j⟩
  · obtain ⟨i, hi⟩ := hw₁.typeIdentity_ok h₁
    obtain ⟨j, hj⟩ := hw₂.typeIdentity_ok h₂
    exact ⟨Symbol.ofType i, Symbol.ofDescriptor j, by rw [typeSymbol, hi]; rfl,
      by rw [descriptorSymbol, hj]; rfl, Symbol.ofType_ne_ofDescriptor i j⟩

/-- A module whose types and methods have names that look like marks and escapes. -/
def markLike : List Declaration :=
  [.module ⟨"$N", ⟨1, 0, 0, 0⟩, [], "", 0, []⟩, .type ⟨0⟩ "" "$u41$" 1 none,
    .type ⟨0⟩ "$$" "" 0 (some ⟨0⟩), .typeInstance ⟨0⟩ [⟨1⟩], .method ⟨2⟩ "$EEType" 1 false,
    .methodInstance ⟨0⟩ [⟨2⟩]]

/-- The same types, made after others that are refused or not asked for. -/
def markLikeLater : List Declaration :=
  [.module ⟨"", ⟨0, 0, 0, 0⟩, [], "", 0, []⟩, .type ⟨7⟩ "" "" 0 none, .type ⟨0⟩ "" "A" 0 none,
    .module ⟨"$N", ⟨2, 0, 0, 0⟩, [], "", 0, []⟩, .type ⟨1⟩ "$$" "" 0 none,
    .type ⟨1⟩ "" "$u41$" 1 none, .typeInstance ⟨2⟩ [⟨1⟩], .method ⟨3⟩ "$EEType" 1 true]

theorem symbols_eq_iff_identities_eq_markLike :
    (∃ i₁ i₂ s₁ s₂, (populated markLike).typeIdentity ⟨2⟩ = .ok i₁ ∧
      (populated markLikeLater).typeIdentity ⟨3⟩ = .ok i₂ ∧
      (populated markLike).typeSymbol ⟨2⟩ = .ok s₁ ∧
      (populated markLikeLater).typeSymbol ⟨3⟩ = .ok s₂ ∧ (s₁ = s₂ ↔ i₁ = i₂)) ∧
    (∃ i₁ i₂ s₁ s₂, (populated markLike).methodIdentity ⟨1⟩ = .ok i₁ ∧
      (populated markLikeLater).methodIdentity ⟨0⟩ = .ok i₂ ∧
      (populated markLike).methodSymbol ⟨1⟩ = .ok s₁ ∧
      (populated markLikeLater).methodSymbol ⟨0⟩ = .ok s₂ ∧ (s₁ = s₂ ↔ i₁ = i₂)) ∧
    (∃ s u d, (populated markLike).methodSymbol ⟨1⟩ = .ok s ∧
      (populated markLikeLater).typeSymbol ⟨3⟩ = .ok u ∧
      (populated markLikeLater).descriptorSymbol ⟨3⟩ = .ok d ∧ s ≠ u ∧ s ≠ d) ∧
    (∃ s d, (populated markLike).typeSymbol ⟨2⟩ = .ok s ∧
      (populated markLikeLater).descriptorSymbol ⟨3⟩ = .ok d ∧ s ≠ d) := by
  obtain ⟨htypes, hmethods, hmixed, hdescriptors⟩ :=
    symbols_eq_iff_identities_eq markLike markLikeLater
  have htypes₁ : 2 < (populated markLike).types.size := by decide
  have htypes₂ : 3 < (populated markLikeLater).types.size := by decide
  have hmethods₁ : 1 < (populated markLike).methods.size := by decide
  have hmethods₂ : 0 < (populated markLikeLater).methods.size := by decide
  exact ⟨htypes ⟨2⟩ ⟨3⟩ htypes₁ htypes₂, hmethods ⟨1⟩ ⟨0⟩ hmethods₁ hmethods₂,
    hmixed ⟨1⟩ ⟨3⟩ hmethods₁ htypes₂, hdescriptors ⟨2⟩ ⟨3⟩ htypes₁ htypes₂⟩

end AheadOfTime.World
