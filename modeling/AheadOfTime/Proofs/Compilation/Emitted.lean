import AheadOfTime.Proofs.Compilation.Boundary
import AheadOfTime.Proofs.Compilation.Metadata
import AheadOfTime.Proofs.Compilation.Partition
import AheadOfTime.Proofs.Node.Reworded
import Mathlib

/-! Metadata lists all that is emitted. The collector passes over handles without a node, over what
the unit does not emit and over what has no name. None of this comes up: a walk marks nodes that
exist, a store that requests led to has nodes on the side of the boundary that the unit puts them
on, and what a node is of is in the world and can be written out (`Program.Bound.rel_descriptor`,
`Program.Bound.rel_entrypoint`). -/

namespace AheadOfTime

variable {β : Type}

/-- The type whose descriptor a node with this key is. -/
def Key.descriptor? : Key → Option TypeId
  | .typeDescriptor t => some t
  | _ => none

/-- The method whose code a node with this key is. -/
def Key.entrypoint? : Key → Option MethodId
  | .methodEntrypoint m => some m
  | _ => none

namespace Metadata

/-- An entry shows an entity that is emitted under a symbol. -/
structure Entry.Shows {α : Type} (emits : α → Bool) (name : α → Except WorldError String)
    (a : α × String) (e : Entry) : Prop where
  emitted : emits a.1 = true
  name : name a.1 = .ok e.name
  symbol : e.symbol = a.2

/-- Entries show some entities, each as often as it comes up, in the order of names and, among equal
names, of symbols. -/
structure Lists {α : Type} (emits : α → Bool) (name : α → Except WorldError String)
    (entities : List (α × String)) (entries : List Entry) : Prop where
  covers : ∃ shown, List.Forall₂ (Entry.Shows emits name) entities shown ∧ entries.Perm shown
  sorted : entries.Pairwise fun e e' => e.name < e'.name ∨ e.name = e'.name ∧ e.symbol ≤ e'.symbol

variable {α : Type} {emits : α → Bool} {name : α → Except WorldError String} {nodes : List Node}

theorem sorted_mergeSort (entries : List Entry) : (entries.mergeSort Entry.le).Pairwise
    fun e e' => e.name < e'.name ∨ e.name = e'.name ∧ e.symbol ≤ e'.symbol := by
  refine (pairwise_le_mergeSort entries).imp fun {e e'} hle => ?_
  by_cases hname : e.name = e'.name
  · exact .inr ⟨hname, (Entry.le_of_name_eq hname).mp hle⟩
  · exact .inl (lt_of_le_of_ne ((Entry.le_of_name_ne hname).mp hle) hname)

theorem rel_shows {a : α} {text : String} (hemits : emits a = true) (hname : name a = .ok text)
    (symbol : String) : Option.Rel (Entry.Shows emits name) (some (a, symbol))
      (if emits a then (name a).toOption.map (⟨·, symbol⟩) else none) := by
  rw [if_pos hemits, hname]
  exact .some ⟨hemits, hname, rfl⟩

/-- Nothing is passed over if each node that is of an entity has an entry that shows it. -/
theorem lists_mergeSort {entity? : Node → Option (α × String)} {shown? : Node → Option Entry}
    (h : ∀ node ∈ nodes, Option.Rel (Entry.Shows emits name) (entity? node) (shown? node)) :
    Lists emits name (nodes.filterMap entity?) ((nodes.filterMap shown?).mergeSort Entry.le) where
  covers := by
    refine ⟨nodes.filterMap shown?, ?_, List.mergeSort_perm ..⟩
    refine List.rel_filterMap (R := fun node node' => node = node' ∧ node ∈ nodes) ?_
      (List.forall₂_same.mpr fun node hnode => ⟨rfl, hnode⟩)
    rintro node _ ⟨rfl, hnode⟩
    exact h node hnode
  sorted := sorted_mergeSort _

end Metadata

namespace World.WellFormed

variable {w : World}

theorem typeName_ok (h : w.WellFormed) {t : TypeId} (ht : w.Has (.type t)) :
    ∃ text, w.typeName t = .ok text := by
  obtain ⟨tree, htree⟩ := h.tree_ok ht
  exact ⟨tree.displayName, Except.map_eq_ok.mpr ⟨tree, htree, rfl⟩⟩

theorem methodName_ok (h : w.WellFormed) {m : MethodId} (hm : w.Has (.method m)) :
    ∃ text, w.methodName m = .ok text := by
  obtain ⟨tree, htree⟩ := h.methodTree_ok hm
  exact ⟨tree.displayName, Except.map_eq_ok.mpr ⟨tree, htree, rfl⟩⟩

end World.WellFormed

namespace Program

variable {p : Program β} {s : Store β} {n : NodeId} {node : Node}

/-- A node is on the side of the boundary that the unit puts it on. -/
theorem Bound.binds_node (hs : p.Bound s) (hn : s.node? n = some node) :
    p.unit.Binds p.world node.key :=
  hs.binds _ (Option.isSome_iff_exists.mpr ⟨n, (hs.sound.lookup_iff _ n).mpr ⟨node, hn, rfl⟩⟩)

theorem Bound.rel_descriptor (hs : p.Bound s) (hw : p.world.WellFormed)
    (hn : s.node? n = some node) :
    Option.Rel (Metadata.Entry.Shows (p.unit.emitsType p.world) p.world.typeName)
      (node.key.descriptor?.map (·, node.name)) (Metadata.ofDescriptor p node) := by
  have hbinds := hs.binds_node hn
  have hnamed := hs.sound.named n node hn
  unfold Metadata.ofDescriptor
  cases hkey : node.key with
  | typeDescriptor t =>
    rw [hkey] at hbinds hnamed
    have hemits : p.unit.emitsType p.world t = true := hbinds
    obtain ⟨text, htext⟩ := hw.typeName_ok (World.has_of_nodeSymbol hnamed rfl)
    exact Metadata.rel_shows (a := t) hemits htext node.name
  | _ => exact .none

theorem Bound.rel_entrypoint (hs : p.Bound s) (hw : p.world.WellFormed)
    (hn : s.node? n = some node) :
    Option.Rel (Metadata.Entry.Shows (p.unit.emitsMethod p.world) p.world.methodName)
      (node.key.entrypoint?.map (·, node.name)) (Metadata.ofEntrypoint p node) := by
  have hbinds := hs.binds_node hn
  have hnamed := hs.sound.named n node hn
  unfold Metadata.ofEntrypoint
  cases hkey : node.key with
  | methodEntrypoint m =>
    rw [hkey] at hbinds hnamed
    have hemits : p.unit.emitsMethod p.world m = true := hbinds
    obtain ⟨text, htext⟩ := hw.methodName_ok (World.has_of_nodeSymbol hnamed rfl)
    exact Metadata.rel_shows (a := m) hemits htext node.name
  | _ => exact .none

end Program

namespace ResultNode

/-- The type whose descriptor is shown, with its symbol. -/
def descriptor? (r : ResultNode) : Option (TypeId × String) := r.key.descriptor?.map (·, r.name)

/-- The method whose code is shown, with its symbol. -/
def entrypoint? (r : ResultNode) : Option (MethodId × String) := r.key.entrypoint?.map (·, r.name)

end ResultNode

namespace Compilation

/-- Results tell of nodes what the store tells. -/
theorem filterMap_resultNodes {α : Type} (f : Key → String → Option α) (s : Store β)
    (ids : List NodeId) :
    (resultNodes s ids).filterMap (fun r => f r.key r.name) =
      (ids.filterMap s.node?).filterMap fun node => f node.key node.name := by
  rw [resultNodes, List.filterMap_filterMap, List.filterMap_filterMap]
  refine List.filterMap_congr fun n _ => ?_
  cases s.node? n <;> rfl

theorem metadata_perm (p : Program β) (s : Store β) {ids ids' : List NodeId} (h : ids.Perm ids') :
    Metadata.of p s ids = Metadata.of p s ids' := by
  have hnodes := h.filterMap s.node?
  rw [Metadata.of, Metadata.of, Metadata.mergeSort_eq_of_perm (hnodes.filterMap _),
    Metadata.mergeSort_eq_of_perm (hnodes.filterMap _)]

/-- In a store that requests led to, the metadata of some nodes shows all that they define. -/
theorem metadata_lists {p : Program β} {s : Store β} (hs : p.Bound s) (hw : p.world.WellFormed)
    (ids : List NodeId) :
    Metadata.Lists (p.unit.emitsType p.world) p.world.typeName
        ((resultNodes s ids).filterMap ResultNode.descriptor?) (Metadata.of p s ids).types ∧
      Metadata.Lists (p.unit.emitsMethod p.world) p.world.methodName
        ((resultNodes s ids).filterMap ResultNode.entrypoint?) (Metadata.of p s ids).methods := by
  have hdescriptors := filterMap_resultNodes (fun k symbol => k.descriptor?.map (·, symbol)) s ids
  have hentrypoints := filterMap_resultNodes (fun k symbol => k.entrypoint?.map (·, symbol)) s ids
  constructor
  · refine hdescriptors ▸ Metadata.lists_mergeSort fun node hnode => ?_
    obtain ⟨n, -, hn⟩ := List.mem_filterMap.mp hnode
    exact hs.rel_descriptor hw hn
  · refine hentrypoints ▸ Metadata.lists_mergeSort fun node hnode => ?_
    obtain ⟨n, -, hn⟩ := List.mem_filterMap.mp hnode
    exact hs.rel_entrypoint hw hn

/-- If a run comes through, after any number of runs of the same compilation, its results show every
node that it marked. Its metadata lists the types whose descriptors are marked and the methods whose
code is, each with its name and symbol and as often as it is marked, in the order of names and
symbols. The unit emits all of them, and nothing marked is linked to as well. In whatever order
the nodes are taken, the metadata is the same. -/
theorem metadata_lists_emitted (c : Compilation β) (ds : List Declaration)
    (hworld : c.program.world = .populated ds) (b : β) (files : Files.Tree)
    (transcript : Transcript) (runs : ℕ) (results : Results)
    (h : (c.run ((fun x => (c.run x).2)^[runs] ⟨.empty b, files, transcript⟩)).1 = .ok results) :
    let x := (fun x => (c.run x).2)^[runs] ⟨.empty b, files, transcript⟩
    let p := c.program
    results.marked.map (·.id) = (c.outcome x.store).walk.marked ∧
    Metadata.Lists (p.unit.emitsType p.world) p.world.typeName
      (results.marked.filterMap ResultNode.descriptor?) results.metadata.types ∧
    Metadata.Lists (p.unit.emitsMethod p.world) p.world.methodName
      (results.marked.filterMap ResultNode.entrypoint?) results.metadata.methods ∧
    (∀ r ∈ results.marked, ∀ r' ∈ results.marked, r.key.link ≠ some r'.key) ∧
    ∀ ids, ids.Perm (results.marked.map (·.id)) →
      Metadata.of p (c.run x).2.store ids = results.metadata := by
  intro x p
  have hx : p.Bound x.store :=
    (p.bound_empty b).leadsTo (leadsTo_runs c runs ⟨.empty b, files, transcript⟩)
  have hbound := hx.leadsTo (leadsTo_run c x)
  have hf : c.Finished x results := run_finished hx.sound h
  rw [run_store (run_ok h).1] at hbound ⊢
  have hids : results.marked.map (·.id) = (c.outcome x.store).walk.marked := hf.ids_marked
  have hlists := metadata_lists hbound (hworld ▸ World.wellFormed_populated ds)
    (c.outcome x.store).walk.marked
  rw [← hf.marked, ← hf.metadata] at hlists
  refine ⟨hids, hlists.1, hlists.2, fun r hr r' hr' hlink => ?_, fun ids hperm => ?_⟩
  · rw [hf.marked] at hr hr'
    obtain ⟨n, -, node, hn, rfl⟩ := mem_resultNodes.mp hr
    obtain ⟨m, -, node', hm, rfl⟩ := mem_resultNodes.mp hr'
    exact (hbound.binds_node hn).not_link hlink (hbound.binds_node hm)
  · rw [hf.metadata]
    exact metadata_perm p _ (hperm.trans (hids ▸ List.Perm.refl _))

/-- The base type is imported and the symbol is of another unit. So there are one type and three
methods to be listed, and neither data nor slot nor dictionary. -/
theorem metadata_lists_emitted_applicationAcross :
    ∃ results, (applicationAcross.run ⟨.empty .empty, ⟨[], []⟩, .silent⟩).1 = .ok results ∧
      let p := applicationAcross.program
      p.world = .populated derivedAcross ∧
      Metadata.Lists (p.unit.emitsType p.world) p.world.typeName
        [(⟨1⟩, "_ilc_App$$Main$EEType")] results.metadata.types ∧
      Metadata.Lists (p.unit.emitsMethod p.world) p.world.methodName
        [(⟨4⟩, "_ilc_App$$Main$$Start"), (⟨3⟩, "_ilc_App$$Main$$Map$LTApp$$Main$GT"),
          (⟨1⟩, "_ilc_App$$Main$$Run")] results.metadata.methods := by
  obtain ⟨results, h⟩ := exists_run_ok (c := applicationAcross)
    (x := ⟨.empty .empty, ⟨[], []⟩, .silent⟩) (by cbv) (by cbv)
  obtain ⟨-, htypes, hmethods, -⟩ :=
    metadata_lists_emitted applicationAcross derivedAcross rfl .empty ⟨[], []⟩ .silent 0 results h
  have hdescriptors : results.marked.filterMap ResultNode.descriptor? =
      [(⟨1⟩, "_ilc_App$$Main$EEType")] := by
    rw [(run_ok h).2.2]
    cbv
  have hentrypoints : results.marked.filterMap ResultNode.entrypoint? =
      [(⟨4⟩, "_ilc_App$$Main$$Start"), (⟨3⟩, "_ilc_App$$Main$$Map$LTApp$$Main$GT"),
        (⟨1⟩, "_ilc_App$$Main$$Run")] := by
    rw [(run_ok h).2.2]
    cbv
  exact ⟨results, h, rfl, hdescriptors ▸ htypes, hentrypoints ▸ hmethods⟩

end Compilation

end AheadOfTime
