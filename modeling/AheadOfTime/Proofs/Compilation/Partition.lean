import AheadOfTime.Proofs.Compilation.Closure
import AheadOfTime.Proofs.Compilation.Folding
import AheadOfTime.Proofs.Compilation.Parallel
import AheadOfTime.Proofs.Node.Identity
import Mathlib

/-! A folding parts the nodes that it is of (`Folding.Partitions`): every node that is no blob keeps
storage of its own, and so does the first blob of each contents; every other blob shares with the
first that has its bytes. This rests on two facts from elsewhere: a blob that has a node has its
bytes there, and a walk marks no node twice. -/

namespace AheadOfTime

variable {β : Type}

/-- The bytes of the blob with a handle. -/
def Store.blob? (s : Store β) (n : NodeId) : Option Blob :=
  (s.node? n).bind fun node => if node.key.isShareable then node.data else none

namespace Folding

variable {p : Program β} {s : Store β} {ns : List NodeId} {n m o : NodeId}

structure Partitions (s : Store β) (ns : List NodeId) (f : Folding) : Prop where
  kept : f.kept.Sublist ns
  /-- A listed node is kept or shares, and not both. -/
  either : ∀ n ∈ ns, n ∈ f.kept ↔ f.owner? n = none
  length : f.kept.length + f.shared.length = ns.length
  /-- Import cells and nodes that cannot be shared are left alone. -/
  alone : ∀ n ∈ ns, ∀ node, s.node? n = some node → node.key.isImportCell ∨ ¬ node.key.isShareable →
    n ∈ f.kept ∧ f.owner? n = none ∧ ∀ m, f.owner? m ≠ some n
  /-- Storage is shared with a blob that is kept, listed before and has the same bytes. -/
  owner : ∀ n o, f.owner? n = some o → o ∈ f.kept ∧ [o, n].Sublist ns ∧
    ∃ data, s.blob? o = some data ∧ s.blob? n = some data
  distinct : ∀ n ∈ f.kept, ∀ m ∈ f.kept, ∀ data,
    s.blob? n = some data → s.blob? m = some data → n = m
  /-- The storage of a blob is that of the first blob with its bytes. -/
  first : ∀ n ∈ ns, ∀ data, s.blob? n = some data →
    ns.find? (s.blob? · = some data) = some (f.home n)
  again : Folding.of s f.kept = ⟨f.kept, []⟩

/-- A blob has bytes, so that there is nothing to stand in for them. -/
theorem contents?_eq_blob? (hs : p.Sound s) (n : NodeId) : contents? s n = s.blob? n := by
  rw [contents?, Store.blob?]
  cases hn : s.node? n with
  | none => rfl
  | some node =>
    obtain ⟨key, name, data, body⟩ := node
    cases key with
    | dataBlob text =>
      -- a node has a name, and a blob without bytes has none
      have hname := hs.named n _ hn
      cases data with
      | some data => rfl
      | none =>
        simp only [World.nodeSymbol, Option.isSome_none] at hname
        split at hname <;> cases hname
    | _ => rfl

theorem nodup_firsts (hns : ns.Nodup) : (firsts s ns).Nodup := hns.filter _

/-- Of the nodes that come first each comes first again. -/
theorem first_firsts (hn : n ∈ firsts s ns) : first s (firsts s ns) n = n := by
  cases hc : contents? s n with
  | none => exact first_of_none hc
  | some c => exact eq_of_mem_firsts (first_mem hn) hn ((contents?_first hn).trans hc) hc

theorem of_firsts (hns : ns.Nodup) : Folding.of s (firsts s ns) = ⟨firsts s ns, []⟩ := by
  rw [of_eq s (nodup_firsts hns)]
  congr 1
  · refine List.filter_eq_self.mpr fun n hn => ?_
    rw [first_firsts hn, (mem_firsts.mp hn).2.1]
    simp
  · rw [others, List.filter_eq_nil_iff.mpr fun n hn => by simp [first_firsts hn], List.map_nil]

/-- The first blob with the bytes of a later one is listed before it. -/
theorem first_before (hn : n ∈ ns) (hne : first s ns n ≠ n) : [first s ns n, n].Sublist ns := by
  obtain ⟨c, hc⟩ := exists_contents_of_ne hne
  obtain ⟨-, before, after, hsplit, hbefore⟩ :=
    List.find?_eq_some_iff_append.mp (find?_eq_first hn hc)
  have hafter : n ∈ after := by
    rw [hsplit] at hn
    rcases List.mem_append.mp hn with hn | hn
    · simpa [hc] using hbefore n hn
    · exact (List.mem_cons.mp hn).resolve_left hne.symm
  have hpair : [first s ns n, n].Sublist (first s ns n :: after) :=
    (List.singleton_sublist.mpr hafter).cons_cons _
  calc [first s ns n, n].Sublist (before ++ first s ns n :: after) :=
        hpair.trans (List.sublist_append_right before _)
    _ = ns := hsplit.symm

/-- Nodes that exist either come first or not. -/
theorem length_firsts_others (hexist : ∀ n ∈ ns, n ∈ Program.existing s) :
    (firsts s ns).length + (others s ns).length = ns.length := by
  have hfirsts : firsts s ns = ns.filter fun n => !decide (first s ns n ≠ n) := by
    refine List.filter_congr fun n hn => ?_
    rw [show (s.node? n).isSome from hexist n hn]
    simp
  rw [hfirsts, others, List.length_map, Nat.add_comm]
  exact (List.length_eq_length_filter_add _).symm

theorem shareable_of_contents? {node : Node} (hn : s.node? n = some node) {c : Blob}
    (hc : contents? s n = some c) : node.key.isShareable := by
  by_contra h
  rw [contents?, hn, Option.bind_some, Node.shareable?, if_neg h] at hc
  cases hc

/-- Only blobs give storage to others or take it. -/
theorem shareable_of_first_eq (hn : n ∈ ns) (hne : first s ns n ≠ n) {node : Node}
    (hnode : s.node? n = some node ∨ s.node? (first s ns n) = some node) :
    node.key.isShareable := by
  obtain ⟨c, hc⟩ := exists_contents_of_ne hne
  rcases hnode with hnode | hnode
  · exact shareable_of_contents? hnode hc
  · exact shareable_of_contents? hnode ((contents?_first hn).trans hc)

theorem partitions_of_sound (hs : p.Sound s) (hns : ns.Nodup)
    (hexist : ∀ n ∈ ns, n ∈ Program.existing s) : Partitions s ns (.of s ns) where
  kept := by
    rw [of_eq s hns]
    exact List.filter_sublist
  either n hn := by
    have hexists : (s.node? n).isSome := hexist n hn
    rw [owner?_of hns, of_eq s hns, mem_firsts]
    simp [hn, hexists]
  length := by
    rw [of_eq s hns]
    exact length_firsts_others hexist
  alone n hn node hnode hkey := by
    have hshareable : ¬ node.key.isShareable := fun h =>
      hkey.elim (fun hcell => by rw [not_isImportCell h] at hcell; cases hcell) fun hne => hne h
    have hfirst : first s ns n = n := by
      by_contra hne
      exact hshareable (shareable_of_first_eq hn hne (.inl hnode))
    refine ⟨?_, ?_, fun m hm => ?_⟩
    · rw [of_eq s hns]
      exact mem_firsts.mpr ⟨hn, hexist n hn, hfirst⟩
    · rw [owner?_of hns, if_neg fun h => h.2 hfirst]
    · obtain ⟨hmem, hne, rfl⟩ := (owner?_of_eq_some_iff hns).mp hm
      exact hshareable (shareable_of_first_eq hmem hne (.inr hnode))
  owner n o h := by
    obtain ⟨hn, hne, rfl⟩ := (owner?_of_eq_some_iff hns).mp h
    obtain ⟨c, hc⟩ := exists_contents_of_ne hne
    have hcfirst := (contents?_first hn).trans hc
    refine ⟨?_, first_before hn hne, c, ?_, ?_⟩
    · rw [of_eq s hns]
      exact mem_firsts.mpr ⟨first_mem hn, isSome_of_contents? hcfirst, first_first hn⟩
    · rwa [← contents?_eq_blob? hs]
    · rwa [← contents?_eq_blob? hs]
  distinct n hn m hm data hcn hcm := by
    rw [of_eq s hns] at hn hm
    rw [← contents?_eq_blob? hs] at hcn hcm
    exact eq_of_mem_firsts hn hm hcn hcm
  first n hn data hc := by
    simp only [← contents?_eq_blob? hs] at hc ⊢
    rw [home_of hns hn]
    exact find?_eq_first hn hc
  again := by
    rw [of_eq s hns]
    exact of_firsts hns

end Folding

namespace Compilation

variable {c : Compilation β} {x : Session β} {results : Results}

/-- A walk marks nodes that exist. -/
theorem Finished.existing_marked (hf : c.Finished x results) :
    ∀ n ∈ (c.outcome x.store).walk.marked, n ∈ Program.existing (c.outcome x.store).state := by
  intro n hn
  obtain ⟨deps, ha, -⟩ := ((Walk.complete_ofRoots _ c.tracking _).moves hf.moves).settled n hn
  exact ha.existing

/-- So the results show all of them. -/
theorem Finished.ids_marked (hf : c.Finished x results) :
    results.marked.map (·.id) = (c.outcome x.store).walk.marked := by
  rw [hf.marked, resultNodes, List.map_filterMap]
  refine (List.filterMap_congr fun n hn => ?_).trans List.filterMap_some
  obtain ⟨node, hnode⟩ := Option.isSome_iff_exists.mp (hf.existing_marked n hn)
  rw [hnode]
  rfl

theorem Finished.partitions (hf : c.Finished x results) :
    Folding.Partitions (c.outcome x.store).state (results.marked.map (·.id)) results.folding := by
  have hnodup := ((Walk.complete_ofRoots _ c.tracking _).moves hf.moves).nodup
  rw [hf.ids_marked, hf.folding]
  exact Folding.partitions_of_sound hf.sound hnodup hf.existing_marked

/-- In a store that operations have led to, nodes listed without duplicates are parted, and so are
those that a run marks. -/
theorem folding_partitions (c : Compilation β) (b : β) (os : List Operation) :
    let s := c.program.performAll b os
    (∀ ns : List NodeId, ns.Nodup → (∀ n ∈ ns, n ∈ Program.existing s) →
      Folding.Partitions s ns (.of s ns)) ∧
    ∀ files transcript results, (c.run ⟨s, files, transcript⟩).1 = .ok results →
      Folding.Partitions (c.run ⟨s, files, transcript⟩).2.store (results.marked.map (·.id))
        results.folding := by
  intro s
  have hs : c.program.Sound s := c.program.performAll_sound b os
  refine ⟨fun ns hns hexist => Folding.partitions_of_sound hs hns hexist,
    fun files transcript results h => ?_⟩
  rw [run_store (run_ok h).1]
  exact (run_finished hs h).partitions

/-- Blobs of equal bytes, two of which are there before the run, among a cell, a symbol and
others. -/
def alikeBlobs : Compilation CallLog where
  program := ⟨.populated [.module ⟨"App", ⟨1, 0, 0, 0⟩, [], "", 0, []⟩,
    .module ⟨"Lib", ⟨1, 0, 0, 0⟩, [], "", 0, []⟩, .type ⟨1⟩ "" "Base" 0 none],
    .modules [⟨0⟩], Script.backend [], ⟨.blended, false, []⟩⟩
  tracking := .all
  roots := [.explicit [⟨.dataBlob "c" [1], "data"⟩, ⟨.typeHandle ⟨0⟩, "type"⟩,
    ⟨.dataBlob "d" [2], "data"⟩, ⟨.dataBlob "a" [1], "data"⟩]]
  metadataLog := none
  dependencyLog := none
  parallel := false

def blobsBefore : List Operation :=
  [.resolve (.dataBlob "a" [1]), .resolve (.externSymbol "puts"), .resolve (.dataBlob "b" [1])]

theorem folding_partitions_alikeBlobs :
    let s := alikeBlobs.program.performAll .empty blobsBefore
    let before := Folding.of s [.small 2, .small 1, .small 0]
    before.kept = [.small 2, .small 1] ∧ before.shared = [(.small 0, .small 2)] ∧
    Folding.Partitions s [.small 2, .small 1, .small 0] before ∧
    ∃ results, (alikeBlobs.run ⟨s, ⟨[], []⟩, .silent⟩).1 = .ok results ∧
      results.folding.kept = [.small 3, .small 4, .small 5] ∧
      results.folding.shared = [(.small 0, .small 3)] ∧
      Folding.Partitions (alikeBlobs.run ⟨s, ⟨[], []⟩, .silent⟩).2.store
        (results.marked.map (·.id)) results.folding := by
  intro s before
  obtain ⟨hlisted, hrun⟩ := folding_partitions alikeBlobs .empty blobsBefore
  have hexist : ∀ n ∈ [NodeId.small 2, .small 1, .small 0], (s.node? n).isSome := by decide +kernel
  have hgather : (alikeBlobs.program.gather alikeBlobs.roots s).error = none := by cbv
  have hwalk : (alikeBlobs.outcome s).error = none := by cbv
  obtain ⟨results, h⟩ := exists_run_ok (x := ⟨s, ⟨[], []⟩, .silent⟩) hgather hwalk
  have hfolding := (run_made h).1
  refine ⟨by decide +kernel, by decide +kernel, hlisted _ (by decide) hexist, results, h, ?_, ?_,
    hrun _ _ _ h⟩
  · rw [hfolding]
    cbv
  · rw [hfolding]
    cbv

end Compilation

end AheadOfTime
