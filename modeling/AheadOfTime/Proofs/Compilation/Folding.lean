import AheadOfTime.Compilation.Folding
import Mathlib.Data.List.Dedup
import Mathlib.Data.List.Nodup
import Mathlib.Data.List.Induction

/-! What a folding says. Of some nodes the first with the same contents gives a blob its storage
(`first`), and a folding is read off this (`of_eq`): nodes have their storage in common just if they
are one node or blobs of the same contents (`home_eq_iff`), and there is one blob with storage of its
own for each contents (`length_shared`). -/

namespace AheadOfTime

/-- The contents of a node that may share its storage. -/
def Node.shareable? (node : Node) : Option Blob :=
  if node.key.isShareable then some (node.data.getD []) else none

namespace Folding

variable {β : Type} {s : Store β} {ns ms : List NodeId} {n m : NodeId} {c : Blob} {f : State}

/-- The node whose storage a node has, which is its own unless it shares that of another. -/
def home (f : Folding) (n : NodeId) : NodeId := (f.owner? n).getD n

/-- The contents that the node with a handle may have in the storage of another. -/
def contents? (s : Store β) (n : NodeId) : Option Blob := (s.node? n).bind Node.shareable?

/-- The first of some nodes with the contents of a node, which is the node itself if it has none. -/
def first (s : Store β) (ns : List NodeId) (n : NodeId) : NodeId :=
  match contents? s n with
  | some c => (ns.find? (contents? s · = some c)).getD n
  | none => n

theorem first_of_none (hc : contents? s n = none) : first s ns n = n := by
  rw [first, hc]

theorem exists_contents_of_ne (h : first s ns n ≠ n) : ∃ c, contents? s n = some c :=
  Option.ne_none_iff_exists'.mp (mt first_of_none h)

theorem find?_eq_first (hn : n ∈ ns) (hc : contents? s n = some c) :
    ns.find? (contents? s · = some c) = some (first s ns n) := by
  have hsome : (ns.find? (contents? s · = some c)).isSome :=
    List.find?_isSome.mpr ⟨n, hn, decide_eq_true hc⟩
  obtain ⟨o, ho⟩ := Option.isSome_iff_exists.mp hsome
  rw [first, hc]
  dsimp only
  rw [ho, Option.getD_some]

theorem first_mem (hn : n ∈ ns) : first s ns n ∈ ns := by
  cases hc : contents? s n with
  | none => rwa [first_of_none hc]
  | some c => exact List.mem_of_find?_eq_some (find?_eq_first hn hc)

theorem contents?_first (hn : n ∈ ns) : contents? s (first s ns n) = contents? s n := by
  cases hc : contents? s n with
  | none => rw [first_of_none hc, hc]
  | some c => exact of_decide_eq_true (List.find?_some (find?_eq_first hn hc) :)

theorem first_eq_first_iff (hn : n ∈ ns) (hm : m ∈ ns) :
    first s ns n = first s ns m ↔
      n = m ∨ ∃ c, contents? s n = some c ∧ contents? s m = some c := by
  constructor
  · intro heq
    have hsame : contents? s n = contents? s m := by
      rw [← contents?_first hn, heq, contents?_first hm]
    cases hc : contents? s n with
    | none =>
      rw [first_of_none hc, first_of_none (hsame ▸ hc)] at heq
      exact .inl heq
    | some c => exact .inr ⟨c, rfl, hsame ▸ hc⟩
  · rintro (rfl | ⟨c, hcn, hcm⟩)
    · rfl
    · have hsame := find?_eq_first hn hcn
      rw [find?_eq_first hm hcm] at hsame
      exact (Option.some.inj hsame).symm

theorem first_first (hn : n ∈ ns) : first s ns (first s ns n) = first s ns n := by
  refine (first_eq_first_iff (first_mem hn) hn).mpr ?_
  cases hc : contents? s n with
  | none => exact .inl (first_of_none hc)
  | some c => exact .inr ⟨c, (contents?_first hn).trans hc, rfl⟩

/-- Nodes that are listed later do not come first. -/
theorem first_append (hn : n ∈ ns) : first s (ns ++ ms) n = first s ns n := by
  cases hc : contents? s n with
  | none => rw [first_of_none hc, first_of_none hc]
  | some c =>
    have hfind := find?_eq_first (List.mem_append_left ms hn) hc
    rw [List.find?_append, find?_eq_first hn hc] at hfind
    exact (Option.some.inj hfind).symm

/-- The listed nodes that come first themselves. -/
def firsts (s : Store β) (ns : List NodeId) : List NodeId :=
  ns.filter fun n => (s.node? n).isSome && first s ns n = n

/-- The other listed nodes with those that come first in their place. -/
def others (s : Store β) (ns : List NodeId) : List (NodeId × NodeId) :=
  (ns.filter fun n => first s ns n ≠ n).map fun n => (n, first s ns n)

theorem firsts_concat (s : Store β) (ns : List NodeId) (n : NodeId) :
    firsts s (ns ++ [n]) = firsts s ns ++
      if (s.node? n).isSome && first s (ns ++ [n]) n = n then [n] else [] := by
  have hold : ns.filter (fun m => (s.node? m).isSome && first s (ns ++ [n]) m = m) =
      firsts s ns := List.filter_congr fun m hm => by rw [first_append hm]
  rw [firsts, List.filter_append, hold, List.filter_singleton, Bool.cond_eq_ite]

theorem others_concat (s : Store β) (ns : List NodeId) (n : NodeId) :
    others s (ns ++ [n]) = others s ns ++
      if first s (ns ++ [n]) n ≠ n then [(n, first s (ns ++ [n]) n)] else [] := by
  have hold : (ns.filter fun m => first s (ns ++ [n]) m ≠ m).map
      (fun m => (m, first s (ns ++ [n]) m)) = others s ns := by
    rw [others, List.filter_congr fun m hm => by rw [first_append hm]]
    exact List.map_congr_left fun m hm => by rw [first_append (List.mem_of_mem_filter hm)]
  rw [others, List.filter_append, List.map_append, hold, List.filter_singleton, Bool.cond_eq_ite]
  by_cases h : first s (ns ++ [n]) n = n <;> simp [h]

theorem not_isImportCell {k : Key} (h : k.isShareable) : k.isImportCell = false := by
  cases k <;> first | rfl | cases h

theorem step_eq (s : Store β) (f : State) (n : NodeId) : step s f n =
    match contents? s n with
    | some contents =>
      match f.owners.lookup contents with
      | some owner => { f with folding := f.folding.share n owner }
      | none => { folding := f.folding.keep n, owners := f.owners ++ [(contents, n)] }
    | none => if (s.node? n).isSome then { f with folding := f.folding.keep n } else f := by
  unfold step contents?
  cases s.node? n with
  | none => rfl
  | some node =>
    by_cases h : node.key.isShareable
    · simp only [Option.bind_some, Node.shareable?, h, not_isImportCell h, if_true]
      rfl
    · simp [Node.shareable?, h]

theorem lookup_append_singleton {α γ : Type} [DecidableEq α] [BEq α] [LawfulBEq α]
    {l : List (α × γ)} {a b : α} {c : γ} (hb : l.lookup b = none) :
    (l ++ [(b, c)]).lookup a = if a = b then some c else l.lookup a := by
  rw [List.lookup_append, List.lookup_cons, List.lookup_nil]
  by_cases h : a = b
  · simp [h, hb]
  · simp [h, beq_eq_false_iff_ne.mpr h]

/-- What is known once some nodes are taken in. -/
structure Folded (s : Store β) (ns : List NodeId) (f : State) : Prop where
  owner : ∀ c, f.owners.lookup c = ns.find? (contents? s · = some c)
  kept : f.folding.kept = firsts s ns
  shared : f.folding.shared = others s ns

theorem folded_empty (s : Store β) : Folded s [] ⟨empty, []⟩ := ⟨fun _ => rfl, rfl, rfl⟩

/-- A node without contents to share is kept, if it is one. -/
theorem Folded.step_alone (h : Folded s ns f) (hn : contents? s n = none) :
    Folded s (ns ++ [n]) (step s f n) := by
  have hfirst : first s (ns ++ [n]) n = n := first_of_none hn
  have hfind (c : Blob) : (ns ++ [n]).find? (contents? s · = some c) =
      ns.find? (contents? s · = some c) := by
    simp [List.find?_append, hn]
  rw [step_eq, hn]
  dsimp only
  by_cases hexists : (s.node? n).isSome
  · rw [if_pos hexists]
    refine ⟨fun c => (h.owner c).trans (hfind c).symm, ?_, ?_⟩
    · simp [firsts_concat, hfirst, hexists, keep, h.kept]
    · simp [others_concat, hfirst, keep, h.shared]
  · rw [if_neg hexists]
    refine ⟨fun c => (h.owner c).trans (hfind c).symm, ?_, ?_⟩
    · simp [firsts_concat, hexists, h.kept]
    · simp [others_concat, hfirst, h.shared]

theorem isSome_of_contents? (hn : contents? s n = some c) : (s.node? n).isSome := by
  cases hnode : s.node? n with
  | none =>
    rw [contents?, hnode] at hn
    cases hn
  | some node => rfl

theorem Folded.step_owner (h : Folded s ns f) (hn : contents? s n = some c)
    (hc : f.owners.lookup c = none) : Folded s (ns ++ [n]) (step s f n) := by
  have hnone : ns.find? (contents? s · = some c) = none := by rw [← h.owner c, hc]
  have hfirst : first s (ns ++ [n]) n = n := by
    rw [first, hn]
    dsimp only
    rw [List.find?_append, hnone]
    simp [hn]
  have hstep : step s f n = ⟨f.folding.keep n, f.owners ++ [(c, n)]⟩ := by
    rw [step_eq, hn]
    dsimp only
    rw [hc]
  rw [hstep]
  refine ⟨fun d => ?_, ?_, ?_⟩
  · dsimp only
    rw [lookup_append_singleton hc, List.find?_append]
    by_cases hd : d = c
    · simp [hd, hn, hnone]
    · simp [hd, hn, Ne.symm hd, h.owner d]
  · simp [firsts_concat, hfirst, isSome_of_contents? hn, keep, h.kept]
  · simp [others_concat, hfirst, keep, h.shared]

theorem Folded.step_share (h : Folded s ns f) (hfresh : n ∉ ns) (hn : contents? s n = some c)
    {o : NodeId} (hc : f.owners.lookup c = some o) : Folded s (ns ++ [n]) (step s f n) := by
  have hsome : ns.find? (contents? s · = some c) = some o := by rw [← h.owner c, hc]
  have hfirst : first s (ns ++ [n]) n = o := by
    rw [first, hn]
    dsimp only
    rw [List.find?_append, hsome]
    rfl
  have hne : o ≠ n := fun hon => hfresh (hon ▸ List.mem_of_find?_eq_some hsome)
  have hnone : f.folding.shared.lookup n = none := by
    rw [h.shared, List.lookup_eq_none_iff]
    intro x hx
    obtain ⟨m, hm, rfl⟩ := List.mem_map.mp hx
    have hm : m ∈ ns := List.mem_of_mem_filter hm
    exact bne_iff_ne.mpr fun hnm => hfresh (hnm ▸ hm)
  have hstep : step s f n = ⟨⟨f.folding.kept, f.folding.shared ++ [(n, o)]⟩, f.owners⟩ := by
    rw [step_eq, hn]
    dsimp only
    rw [hc]
    dsimp only
    rw [share, hnone]
  rw [hstep]
  refine ⟨fun d => ?_, ?_, ?_⟩
  · dsimp only
    rw [List.find?_append, h.owner d]
    by_cases hd : d = c
    · simp [hd, hsome]
    · simp [hn, Ne.symm hd]
  · simp [firsts_concat, hfirst, hne, h.kept]
  · simp [others_concat, hfirst, hne, h.shared]

theorem Folded.step (h : Folded s ns f) (hfresh : n ∉ ns) :
    Folded s (ns ++ [n]) (Folding.step s f n) := by
  cases hn : contents? s n with
  | none => exact h.step_alone hn
  | some c =>
    cases hc : f.owners.lookup c with
    | none => exact h.step_owner hn hc
    | some o => exact h.step_share hfresh hn hc

theorem folded_foldl (s : Store β) (hns : ns.Nodup) :
    Folded s ns (ns.foldl (Folding.step s) ⟨empty, []⟩) := by
  induction ns using List.reverseRecOn with
  | nil => exact folded_empty s
  | append_singleton ns n ih =>
    obtain ⟨hold, -, hfresh⟩ := List.nodup_append.mp hns
    rw [List.foldl_append]
    exact (ih hold).step fun hn => hfresh n hn n (List.mem_singleton.mpr rfl) rfl

/-- A folding read off the list: nodes that come first are kept, others share with the first. -/
theorem of_eq (s : Store β) (hns : ns.Nodup) : Folding.of s ns = ⟨firsts s ns, others s ns⟩ := by
  have h := folded_foldl s hns
  rw [← h.kept, ← h.shared]
  rfl

theorem owner?_of (hns : ns.Nodup) :
    (Folding.of s ns).owner? n = if n ∈ ns ∧ first s ns n ≠ n then some (first s ns n) else none := by
  rw [of_eq s hns, owner?, others]
  split
  · rename_i h
    exact List.lookup_graph _ (List.mem_filter.mpr ⟨h.1, decide_eq_true h.2⟩)
  · rename_i h
    refine List.lookup_eq_none_iff.mpr fun x hx => ?_
    obtain ⟨m, hm, rfl⟩ := List.mem_map.mp hx
    obtain ⟨hm, hfirst⟩ := List.mem_filter.mp hm
    refine bne_iff_ne.mpr ?_
    rintro rfl
    exact h ⟨hm, of_decide_eq_true hfirst⟩

theorem owner?_of_eq_some_iff (hns : ns.Nodup) :
    (Folding.of s ns).owner? n = some m ↔ n ∈ ns ∧ first s ns n ≠ n ∧ first s ns n = m := by
  rw [owner?_of hns]
  simp [and_assoc]

theorem home_of (hns : ns.Nodup) (hn : n ∈ ns) : (Folding.of s ns).home n = first s ns n := by
  rw [home, owner?_of hns]
  split
  · rfl
  · rename_i h
    by_contra hne
    exact h ⟨hn, fun hfirst => hne hfirst.symm⟩

/-- Listed nodes have their storage in common just if they are one, or blobs of the same
contents. -/
theorem home_eq_iff (hns : ns.Nodup) (hn : n ∈ ns) (hm : m ∈ ns) :
    (Folding.of s ns).home n = (Folding.of s ns).home m ↔
      n = m ∨ ∃ contents, contents? s n = some contents ∧ contents? s m = some contents := by
  rw [home_of hns hn, home_of hns hm, first_eq_first_iff hn hm]

theorem mem_firsts : n ∈ firsts s ns ↔ n ∈ ns ∧ (s.node? n).isSome ∧ first s ns n = n := by
  simp [firsts]

/-- Of the blobs that come first no two have the same contents. -/
theorem eq_of_mem_firsts (hn : n ∈ firsts s ns) (hm : m ∈ firsts s ns)
    (hcn : contents? s n = some c) (hcm : contents? s m = some c) : n = m := by
  obtain ⟨hn, -, hfirst⟩ := mem_firsts.mp hn
  obtain ⟨hm, -, hfirst'⟩ := mem_firsts.mp hm
  rw [← hfirst, ← hfirst', first_eq_first_iff hn hm]
  exact .inr ⟨c, hcn, hcm⟩

theorem contents_firsts (hns : ns.Nodup) :
    ((firsts s ns).filterMap (contents? s)).Perm (ns.filterMap (contents? s)).dedup := by
  have hnodup : ((firsts s ns).filterMap (contents? s)).Nodup := by
    refine List.pairwise_filterMap.mpr ((hns.filter _).imp_of_mem fun hn hm hne c hc d hd => ?_)
    rintro rfl
    exact hne (eq_of_mem_firsts hn hm hc hd)
  refine (List.perm_ext_iff_of_nodup hnodup (List.nodup_dedup _)).mpr fun c => ?_
  rw [List.mem_dedup, List.mem_filterMap, List.mem_filterMap]
  constructor
  · rintro ⟨n, hn, hc⟩
    exact ⟨n, (mem_firsts.mp hn).1, hc⟩
  · rintro ⟨n, hn, hc⟩
    have hc' := (contents?_first hn).trans hc
    exact ⟨first s ns n, mem_firsts.mpr ⟨first_mem hn, isSome_of_contents? hc', first_first hn⟩, hc'⟩

/-- One blob for each contents has storage of its own. -/
theorem length_shared (s : Store β) (hns : ns.Nodup) :
    (Folding.of s ns).shared.length + (ns.filterMap (contents? s)).dedup.length =
      (ns.filterMap (contents? s)).length := by
  have hothers : (ns.filter fun n => first s ns n ≠ n).countP (fun n => (contents? s n).isSome) =
      (others s ns).length := by
    rw [others, List.length_map, List.countP_eq_length]
    intro n hn
    have hne : first s ns n ≠ n := of_decide_eq_true (List.mem_filter.mp hn).2
    exact Option.isSome_iff_exists.mpr (exists_contents_of_ne hne)
  have hfirsts : (ns.filter fun n => !decide (first s ns n ≠ n)).countP
      (fun n => (contents? s n).isSome) = (firsts s ns).countP fun n => (contents? s n).isSome := by
    rw [firsts, List.countP_filter, List.countP_filter]
    refine List.countP_congr fun n _ => ?_
    have hexists : (contents? s n).isSome → (s.node? n).isSome := fun h =>
      isSome_of_contents? (Option.some_get h).symm
    simp only [Bool.and_eq_true, Bool.not_eq_true', decide_eq_false_iff_not, not_not,
      decide_eq_true_eq]
    tauto
  rw [← (contents_firsts hns).length_eq, of_eq s hns, List.length_filterMap_eq_countP,
    List.length_filterMap_eq_countP, ← hothers, ← hfirsts]
  exact (List.countP_eq_countP_filter_add ns _ _).symm

end Folding

end AheadOfTime
