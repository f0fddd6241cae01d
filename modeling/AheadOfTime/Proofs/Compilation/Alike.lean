import AheadOfTime.Proofs.Compilation.Folding
import AheadOfTime.Proofs.Compilation.Guided
import AheadOfTime.Proofs.Compilation.Metadata
import Mathlib

/-! Compilations that ask for the same. If one run succeeds, the store that it leaves guides the
other, whatever order that takes things in, since it holds what any of the marked keys asks for. So
the other succeeds as well, and as both mark the least closed set of keys, nothing that does not
show handles or an order can tell their results apart (`Alike.results_alike`). -/

namespace AheadOfTime

variable {β : Type}

namespace Program

variable {p p' : Program β} {reported reported' : MethodId → List Reference} {s t : Store β}

/-- Programs over one world and one unit whose backends compile the same methods, whatever their
states, and tell the same references. -/
structure Alike (p p' : Program β) (reported reported' : MethodId → List Reference) : Prop where
  world : p'.world = p.world
  unit : p'.unit = p.unit
  reports : p.Reports reported
  reports' : p'.Reports reported'
  reported : ∀ m r, r ∈ reported m ↔ r ∈ reported' m
  compiles : ∀ m b b', (p.backend.compile p.world p.settings m b).1.isOk =
    (p'.backend.compile p'.world p'.settings m b').1.isOk

namespace Alike

variable (h : p.Alike p' reported reported')
include h

theorem symm : p'.Alike p reported' reported where
  world := h.world.symm
  unit := h.unit.symm
  reports := h.reports'
  reports' := h.reports
  reported m r := (h.reported m r).symm
  compiles m b b' := (h.compiles m b' b).symm

theorem key_eq (r : Request) : p'.key r = p.key r := by rw [key, key, h.world, h.unit]

theorem guide (ht : p.Guide t) : p'.Guide t :=
  ⟨ht.lookup_iff, fun n node hn => h.world.symm ▸ ht.named n node hn, ht.size_le⟩

theorem available {r : Request} (hav : p.Available t r) : p'.Available t r := by
  obtain ⟨n, hserves⟩ := hav
  exact ⟨n, by rw [h.key_eq]; exact hserves.lookup, hserves.agrees⟩

theorem closed {requests requests' : List Request} (hrequests : ∀ r ∈ requests', r ∈ requests)
    {S : Set Key} (hS : p.Closed reported requests S) : p'.Closed reported' requests' S := by
  refine closed_of_references (fun r hr => ?_) (fun hk hown r hr => ?_) (fun hm r hr => ?_)
    fun hk hoverrides o ho hused => ?_
  · rw [h.key_eq]
    exact hS.root r (hrequests r hr)
  · rw [h.key_eq]
    exact hS.references hk (h.world ▸ hown) r hr
  · rw [h.key_eq]
    exact hS.body hm r ((h.reported _ r).mpr hr)
  · rw [h.key_eq]
    exact hS.overrides hk (h.world ▸ hoverrides) o ho hused

/-- What a node that has been asked led to, the other program has as well. -/
theorem supplied (hs : p.Sound t) {n : NodeId} {k : Key} (hk : t.lookup k = some n)
    {deps : Dependencies} (ha : p.Answered t n deps) : p'.Supplied t k := by
  obtain ⟨⟨node, own, hn, hown, hready, hes⟩, ⟨node', overrides, hn', hoverrides, hds⟩⟩ := ha
  have hkey : node.key = k := hs.key_of_lookup hk hn
  have hkey' : node'.key = k := hs.key_of_lookup hk hn'
  have hav : ∀ r ∈ own ++ node.found, p'.Available t r.target := by
    intro r hr
    obtain ⟨e, -, hedge⟩ := exists_mem_right hes r hr
    exact h.available ⟨e.target, hedge.serves⟩
  constructor
  · refine ⟨own, ?_, fun r hr => hav r (List.mem_append_left _ hr)⟩
    rw [h.world, ← hkey, hown]
  · rintro m rfl b
    obtain ⟨body, hbody⟩ := Option.isSome_iff_exists.mp (hready m hkey)
    obtain ⟨m', b₀, b₁, hm', hb⟩ := hs.compiled n node body hn hbody
    obtain rfl : m = m' := by
      rw [hkey] at hm'
      cases hm'
      rfl
    have hok := h.compiles m b₀ b
    rw [hb] at hok
    rcases hb' : p'.backend.compile p'.world p'.settings m b with ⟨e | body', b'⟩
    · rw [hb'] at hok
      cases hok
    · refine ⟨body', b', rfl, fun r hr => hav r (List.mem_append_right _ ?_)⟩
      rw [h.reports' hb', ← h.reported] at hr
      exact (hs.mem_found h.reports hn hready).mpr ⟨m, hkey, hr⟩
  · refine ⟨overrides, ?_, fun o ho => ?_⟩
    · rw [h.world, ← hkey', hoverrides]
    · obtain ⟨e, -, hedge⟩ := exists_mem_right hds o ho
      exact ⟨h.available ⟨e.condition, hedge.condition, rfl⟩,
        h.available ⟨e.target, hedge.target, rfl⟩⟩

end Alike

theorem existing_iff {n : NodeId} : n ∈ existing s ↔ n.index < s.size := by
  simp [existing, Store.node?, Store.size]

/-- Stores of the same keys have the same handles. -/
theorem Guide.size_eq (hs : p.Guide s) (ht : p'.Guide t)
    (hkeys : ∀ k, (s.lookup k).isSome ↔ (t.lookup k).isSome) : s.size = t.size := by
  rw [← length_slotKeys, ← length_slotKeys]
  refine List.Perm.length_eq ?_
  refine (List.perm_ext_iff_of_nodup hs.nodup_slotKeys ht.nodup_slotKeys).mpr fun k => ?_
  rw [hs.mem_slotKeys, ht.mem_slotKeys, hkeys]

end Program

theorem World.nodeSymbol_unique {w : World} {hasData hasData' : Bool} {k : Key} {name name' : String}
    (h : w.nodeSymbol hasData k = .ok name) (h' : w.nodeSymbol hasData' k = .ok name') :
    name = name' := by
  cases k with
  | dataBlob text =>
    simp only [nodeSymbol] at h h'
    split at h
    · cases h
    · split at h
      · split at h'
        · cases h'
        · split at h'
          · exact Except.ok.inj (h.symm.trans h')
          · cases h'
      · cases h
  | _ => exact Except.ok.inj (h.symm.trans h')

/-- Lists of nodes that have no key twice and, apart from handles, order and code, show the same. -/
structure Node.ListsAlike (xs ys : List Node) : Prop where
  nodup : (xs.map Node.key).Nodup
  nodup' : (ys.map Node.key).Nodup
  keys : ∀ k, k ∈ xs.map Node.key ↔ k ∈ ys.map Node.key
  name : ∀ x ∈ xs, ∀ y ∈ ys, x.key = y.key → x.name = y.name
  shareable : ∀ x ∈ xs, ∀ y ∈ ys, x.key = y.key → x.shareable? = y.shareable?

theorem Node.ListsAlike.symm {xs ys : List Node} (h : ListsAlike xs ys) : ListsAlike ys xs where
  nodup := h.nodup'
  nodup' := h.nodup
  keys k := (h.keys k).symm
  name y hy x hx hkey := (h.name x hx y hy hkey.symm).symm
  shareable y hy x hx hkey := (h.shareable x hx y hy hkey.symm).symm

theorem Node.ListsAlike.exists_twin {xs ys : List Node} (h : ListsAlike xs ys) {x : Node}
    (hx : x ∈ xs) :
    ∃ y ∈ ys, x.key = y.key ∧ x.name = y.name ∧ x.shareable? = y.shareable? := by
  obtain ⟨y, hy, hkey⟩ := List.mem_map.mp ((h.keys x.key).mp (List.mem_map_of_mem hx))
  exact ⟨y, hy, hkey.symm, h.name x hx y hy hkey.symm, h.shareable x hx y hy hkey.symm⟩

/-- What is told of each node alone is told of both lists alike. -/
theorem Node.ListsAlike.perm {α : Type} {xs ys : List Node} (h : ListsAlike xs ys)
    {f : Node → Option α}
    (hf : ∀ x y : Node, x.key = y.key → x.name = y.name → x.shareable? = y.shareable? → f x = f y) :
    (xs.filterMap f).Perm (ys.filterMap f) := by
  have hnodup {zs : List Node} (hz : (zs.map Node.key).Nodup) :
      (zs.map fun z => (z.key, f z)).Nodup :=
    List.Nodup.of_map Prod.fst (by rwa [List.map_map])
  have hsub {xs ys : List Node} (h : ListsAlike xs ys) :
      ∀ q ∈ xs.map fun x => (x.key, f x), q ∈ ys.map fun y => (y.key, f y) := by
    intro q hq
    obtain ⟨x, hx, rfl⟩ := List.mem_map.mp hq
    obtain ⟨y, hy, hkey, hname, hshareable⟩ := h.exists_twin hx
    refine List.mem_map.mpr ⟨y, hy, ?_⟩
    rw [hkey, hf x y hkey hname hshareable]
  have hpairs : (xs.map fun x => (x.key, f x)).Perm (ys.map fun y => (y.key, f y)) :=
    (List.perm_ext_iff_of_nodup (hnodup h.nodup) (hnodup h.nodup')).mpr
      fun q => ⟨hsub h q, hsub h.symm q⟩
  have htold := hpairs.filterMap Prod.snd
  simpa [List.filterMap_map, Function.comp_def] using htold

theorem Node.ListsAlike.together {xs ys : List Node} (h : ListsAlike xs ys) {k k' : Key} :
    (∃ x ∈ xs, ∃ x' ∈ xs, x.key = k ∧ x'.key = k' ∧
      (k = k' ∨ ∃ contents, x.shareable? = some contents ∧ x'.shareable? = some contents)) →
    ∃ y ∈ ys, ∃ y' ∈ ys, y.key = k ∧ y'.key = k' ∧
      (k = k' ∨ ∃ contents, y.shareable? = some contents ∧ y'.shareable? = some contents) := by
  rintro ⟨x, hx, x', hx', rfl, rfl, hsame⟩
  obtain ⟨y, hy, hkey, -, hshareable⟩ := h.exists_twin hx
  obtain ⟨y', hy', hkey', -, hshareable'⟩ := h.exists_twin hx'
  exact ⟨y, hy, y', hy', hkey.symm, hkey'.symm, by rwa [← hshareable, ← hshareable']⟩

/-- The nodes of two keys are marked and have their storage in common. -/
def Results.Together (r : Results) (k k' : Key) : Prop :=
  ∃ x ∈ r.marked, ∃ y ∈ r.marked, x.key = k ∧ y.key = k' ∧
    r.folding.home x.id = r.folding.home y.id

/-- Results that show the same, apart from handles and the order of marking. -/
structure Results.Alike (r r' : Results) : Prop where
  marked : {(x.key, x.name) | x ∈ r.marked} = {(x.key, x.name) | x ∈ r'.marked}
  metadata : r.metadata = r'.metadata
  shared : r.folding.shared.length = r'.folding.shared.length
  together : ∀ k k', r.Together k k' ↔ r'.Together k k'

namespace Compilation

variable {c c' : Compilation β} {reported reported' : MethodId → List Reference} {b : β}

/-- Compilations whose programs are alike and whose sources ask for the same and give the same. -/
structure Alike (c c' : Compilation β) (reported reported' : MethodId → List Reference) :
    Prop where
  program : c.program.Alike c'.program reported reported'
  references : ∀ r, r ∈ c.roots.flatMap (·.references c.program.world) ↔
    r ∈ c'.roots.flatMap (·.references c'.program.world)
  given : ∀ root, root ∈ c.roots.flatMap (·.givenRoots) ↔ root ∈ c'.roots.flatMap (·.givenRoots)

namespace Alike

variable (h : c.Alike c' reported reported')
include h

theorem symm : c'.Alike c reported' reported :=
  ⟨h.program.symm, fun r => (h.references r).symm, fun root => (h.given root).symm⟩

theorem mem_requests (r : Request) : r ∈ c.requests ↔ r ∈ c'.requests := by
  simp only [requests, List.mem_map, h.references]

/-- Gathering is guided by what the other has gathered. -/
theorem gather (herror : (c.program.gather c.roots (.empty b)).error = none) :
    (c'.program.gather c'.roots (.empty b)).error = none := by
  have hmade := Program.gather_creates (p := c.program) c.roots (.empty b)
  have hguide := h.program.guide hmade.steps.guide
  refine (Program.gather_yields hguide (.empty _ _ b) fun r hr => ?_).1
  exact h.program.available (Program.gather_available herror r ((h.references r).mpr hr))

/-- Handles that exist for one exist for the other, though they may be of other keys. -/
theorem handlesExist (herror : (c.program.gather c.roots (.empty b)).error = none)
    (hexist : c.HandlesExist (.empty b)) : c'.HandlesExist (.empty b) := by
  have hmade := Program.gather_creates (p := c.program) c.roots (.empty b)
  have hmade' := Program.gather_creates (p := c'.program) c'.roots (.empty b)
  have hsize := hmade.steps.guide.size_eq hmade'.steps.guide fun k => by
    rw [Program.lookup_gather_iff herror, Program.lookup_gather_iff (h.gather herror)]
    simp only [h.references, h.program.key_eq]
  intro source hsource root hroot
  obtain ⟨source', hsource', hroot'⟩ := List.mem_flatMap.mp
    ((h.given root).mpr (List.mem_flatMap.mpr ⟨source, hsource, hroot⟩))
  rw [Program.existing_iff, ← hsize, ← Program.existing_iff]
  exact hexist source' hsource' root hroot'

end Alike

/-- The marked nodes of a run, in the order of marking. -/
def nodes (c : Compilation β) (s : Store β) : List Node :=
  (c.outcome s).walk.marked.filterMap (c.outcome s).state.node?

variable {x : Session β} {results results' : Results}

theorem Finished.nodup_marked (hf : c.Finished x results) :
    (c.outcome x.store).walk.marked.Nodup :=
  ((Walk.complete_ofRoots _ c.tracking _).moves hf.moves).nodup

/-- Results show the marked nodes by key and name. -/
theorem Finished.map_marked (hf : c.Finished x results) :
    results.marked.map (fun r => (r.key, r.name)) =
      (c.nodes x.store).map fun node => (node.key, node.name) := by
  rw [hf.marked, resultNodes, nodes, List.map_filterMap, List.map_filterMap]
  simp only [Option.map_map, Function.comp_def]

theorem Finished.mem_keys (hf : c.Finished x results) {k : Key} :
    k ∈ (c.nodes x.store).map Node.key ↔ ∃ r ∈ results.marked, r.key = k := by
  have hkeys := congrArg (List.map Prod.fst) hf.map_marked
  simp only [List.map_map, Function.comp_def] at hkeys
  rw [← List.mem_map, hkeys]

theorem Finished.nodup_keys (hf : c.Finished x results) :
    ((c.nodes x.store).map Node.key).Nodup := by
  rw [nodes, List.map_filterMap]
  refine hf.nodup_marked.filterMap fun n m k hn hm => ?_
  obtain ⟨node, hnode, hkey⟩ := Option.map_eq_some_iff.mp hn
  obtain ⟨node', hnode', hkey'⟩ := Option.map_eq_some_iff.mp hm
  exact hf.sound.handle_inj hnode hnode' (hkey.trans hkey'.symm)

/-- The roots of a run from nothing are nodes that are asked for, if all of them exist. -/
theorem rootedBy_of_run (hx : x.store = .empty b) (hexist : c.HandlesExist x.store)
    (hr : (c.run x).1 = .ok results) :
    c.program.RootedBy (c.roots.flatMap (·.references c.program.world))
      (c.program.gather c.roots x.store).roots (c.outcome x.store).state := by
  have hgather := (run_ok hr).1
  have hsteps := c.outcome_steps x.store
  rw [hx] at hexist hgather hsteps ⊢
  exact (hexist.rootedBy hgather).grows hsteps.grows

theorem finished_of_run (hx : x.store = .empty b) (hr : (c.run x).1 = .ok results) :
    c.Finished x results :=
  run_finished (hx ▸ c.program.sound_empty b) hr

theorem Finished.shareable (hf : c.Finished x results) :
    results.folding.shared.length + ((c.nodes x.store).filterMap Node.shareable?).dedup.length =
      ((c.nodes x.store).filterMap Node.shareable?).length := by
  rw [hf.folding, nodes, List.filterMap_filterMap]
  exact Folding.length_shared _ hf.nodup_marked

/-- Nodes have their storage in common if they are one, or blobs of the same contents. -/
theorem Finished.together_iff (hf : c.Finished x results) {k k' : Key} :
    results.Together k k' ↔ ∃ y ∈ c.nodes x.store, ∃ z ∈ c.nodes x.store, y.key = k ∧ z.key = k' ∧
      (k = k' ∨ ∃ contents, y.shareable? = some contents ∧ z.shareable? = some contents) := by
  have hcontents {n : NodeId} {node : Node} (hnode : (c.outcome x.store).state.node? n = some node) :
      Folding.contents? (c.outcome x.store).state n = node.shareable? := by
    rw [Folding.contents?, hnode, Option.bind_some]
  rw [Results.Together, hf.marked, hf.folding]
  constructor
  · rintro ⟨y, hy, z, hz, rfl, rfl, hhome⟩
    obtain ⟨n, hn, node, hnode, rfl⟩ := mem_resultNodes.mp hy
    obtain ⟨m, hm, node', hnode', rfl⟩ := mem_resultNodes.mp hz
    refine ⟨node, List.mem_filterMap.mpr ⟨n, hn, hnode⟩, node',
      List.mem_filterMap.mpr ⟨m, hm, hnode'⟩, rfl, rfl, ?_⟩
    rcases (Folding.home_eq_iff hf.nodup_marked hn hm).mp hhome with hnm | hsame
    · have hnm : n = m := hnm
      rw [hnm, hnode'] at hnode
      exact .inl (congrArg Node.key (Option.some.inj hnode).symm)
    · rw [hcontents hnode, hcontents hnode'] at hsame
      exact .inr hsame
  · rintro ⟨node, hy, node', hz, rfl, rfl, hsame⟩
    obtain ⟨n, hn, hnode⟩ := List.mem_filterMap.mp hy
    obtain ⟨m, hm, hnode'⟩ := List.mem_filterMap.mp hz
    refine ⟨_, mem_resultNodes.mpr ⟨n, hn, node, hnode, rfl⟩, _,
      mem_resultNodes.mpr ⟨m, hm, node', hnode', rfl⟩, rfl, rfl, ?_⟩
    refine (Folding.home_eq_iff hf.nodup_marked hn hm).mpr (hsame.imp (fun hkey => ?_) fun hsame => ?_)
    · exact hf.sound.handle_inj hnode hnode' hkey
    · rwa [hcontents hnode, hcontents hnode']

namespace Alike

variable (h : c.Alike c' reported reported') (hx : x.store = .empty b)
  (hexist : c.HandlesExist x.store)
include h hx hexist

/-- The store that a run leaves guides the other. -/
theorem follows (hr : (c.run x).1 = .ok results) :
    (∃ results', (c'.run x).1 = .ok results') ∧
      c'.program.Follows (c.outcome x.store).state (c'.outcome x.store).state := by
  have hf := finished_of_run hx hr
  have hrooted := rootedBy_of_run hx hexist hr
  have hleast := hf.isLeast_marked h.program.reports hrooted
  have hsize : (c.outcome x.store).state.size ≤ 0x100000000 :=
    hf.steps.size_le (by rw [hx]; exact Nat.zero_le _)
  have hguide := h.program.guide (hf.sound.guide hsize)
  have hav : ∀ r ∈ c'.roots.flatMap (·.references c'.program.world),
      c'.program.Available (c.outcome x.store).state r.target := by
    intro r hr
    obtain ⟨root, -, hserves⟩ := hrooted.asked r ((h.references r).mpr hr)
    exact h.program.available ⟨root.node, hserves⟩
  have hclosed := h.program.closed (fun r hr => (h.mem_requests r).mpr hr) hleast.1
  -- Marked nodes have been asked, so the store has whatever they lead to.
  have hsupplied : ∀ k ∈ {k | ∃ r ∈ results.marked, r.key = k},
      c'.program.Supplied (c.outcome x.store).state k := by
    intro k hk
    rw [hf.keys_marked] at hk
    obtain ⟨n, hn, hlookup⟩ := hk
    obtain ⟨deps, hanswered, -⟩ :=
      ((Walk.complete_ofRoots _ c.tracking _).moves hf.moves).settled n hn
    exact h.program.supplied hf.sound hlookup hanswered
  have hgather := (run_ok hr).1
  rw [hx] at hexist hgather
  obtain ⟨hgather', hwalk', hfollows⟩ := outcome_of_guide hguide h.program.reports' hav hclosed
    hsupplied (h.handlesExist hgather hexist)
  rw [← hx] at hgather' hwalk' hfollows
  exact ⟨exists_run_ok hgather' hwalk', hfollows⟩

/-- Both mark the keys of the least closed set. -/
theorem keys_marked (hr : (c.run x).1 = .ok results) (hr' : (c'.run x).1 = .ok results') :
    {k | ∃ r ∈ results.marked, r.key = k} = {k | ∃ r ∈ results'.marked, r.key = k} := by
  have hexist' : c'.HandlesExist x.store := by
    have hgather := (run_ok hr).1
    rw [hx] at hexist hgather ⊢
    exact h.handlesExist hgather hexist
  have hleast := (finished_of_run hx hr).isLeast_marked h.program.reports
    (rootedBy_of_run hx hexist hr)
  have hleast' := (finished_of_run hx hr').isLeast_marked h.program.reports'
    (rootedBy_of_run hx hexist' hr')
  have hclosed : {S | c.program.Closed reported c.requests S} =
      {S | c'.program.Closed reported' c'.requests S} := by
    ext S
    exact ⟨h.program.closed fun r => (h.mem_requests r).mpr,
      h.program.symm.closed fun r => (h.mem_requests r).mp⟩
  exact hleast.unique (hclosed ▸ hleast')

theorem nodes_alike (hr : (c.run x).1 = .ok results) (hr' : (c'.run x).1 = .ok results') :
    Node.ListsAlike (c.nodes x.store) (c'.nodes x.store) := by
  have hf := finished_of_run hx hr
  have hf' := finished_of_run hx hr'
  have hkeys := h.keys_marked hx hexist hr hr'
  obtain ⟨-, hfollows⟩ := h.follows hx hexist hr
  refine ⟨hf.nodup_keys, hf'.nodup_keys, fun k => ?_, fun y hy z hz hkey => ?_,
    fun y hy z hz hkey => ?_⟩
  · rw [hf.mem_keys, hf'.mem_keys]
    exact Set.ext_iff.mp hkeys k
  · obtain ⟨n, -, hy⟩ := List.mem_filterMap.mp hy
    obtain ⟨m, -, hz⟩ := List.mem_filterMap.mp hz
    have hname' := hf'.sound.named m z hz
    rw [h.program.world, ← hkey] at hname'
    exact World.nodeSymbol_unique (hf.sound.named n y hy) hname'
  -- A blob may be asked for by different requests first, but the guide fixes its contents.
  · obtain ⟨n, -, hy⟩ := List.mem_filterMap.mp hy
    obtain ⟨m, -, hz⟩ := List.mem_filterMap.mp hz
    have hlookup := (hf'.sound.lookup_iff _ m).mpr ⟨z, hz, rfl⟩
    have hdata : z.key.isShareable → y.data = z.data := by
      intro hshareable
      rw [← hf.sound.contents_of_node hy, ← hf'.sound.contents_of_node hz, hkey]
      cases hblob : z.key with
      | dataBlob name =>
        rw [hblob] at hlookup
        exact (hfollows.below.blobs name (Option.isSome_iff_exists.mpr ⟨m, hlookup⟩)).symm
      | _ =>
        rw [hblob] at hshareable
        cases hshareable
    rw [Node.shareable?, Node.shareable?, hkey]
    split
    · rename_i hshareable
      rw [hdata hshareable]
    · rfl

theorem results_alike (hr : (c.run x).1 = .ok results) (hr' : (c'.run x).1 = .ok results') :
    results.Alike results' := by
  have hf := finished_of_run hx hr
  have hf' := finished_of_run hx hr'
  have hnodes := h.nodes_alike hx hexist hr hr'
  constructor
  · have hpairs := hnodes.perm (f := fun node => some (node.key, node.name))
      fun y z hkey hname _ => by rw [hkey, hname]
    simp only [List.filterMap_eq_map', ← hf.map_marked, ← hf'.map_marked] at hpairs
    ext q
    rw [Set.mem_ofPred_eq, Set.mem_ofPred_eq, ← List.mem_map, ← List.mem_map]
    exact hpairs.mem_iff
  · have htypes := hnodes.perm (f := Metadata.ofDescriptor c.program) fun y z hkey hname _ => by
      rw [Metadata.ofDescriptor, Metadata.ofDescriptor, hkey, hname]
    have hmethods := hnodes.perm (f := Metadata.ofEntrypoint c.program) fun y z hkey hname _ => by
      rw [Metadata.ofEntrypoint, Metadata.ofEntrypoint, hkey, hname]
    have hdescriptor : Metadata.ofDescriptor c'.program = Metadata.ofDescriptor c.program := by
      funext node
      rw [Metadata.ofDescriptor, Metadata.ofDescriptor, h.program.world, h.program.unit]
    have hentrypoint : Metadata.ofEntrypoint c'.program = Metadata.ofEntrypoint c.program := by
      funext node
      rw [Metadata.ofEntrypoint, Metadata.ofEntrypoint, h.program.world, h.program.unit]
    rw [hf.metadata, hf'.metadata, Metadata.of, Metadata.of, hdescriptor, hentrypoint]
    exact congrArg₂ Metadata.mk (Metadata.mergeSort_eq_of_perm htypes)
      (Metadata.mergeSort_eq_of_perm hmethods)
  · have hblobs := hnodes.perm (f := Node.shareable?) fun _ _ _ _ hsame => hsame
    have hcount := hf.shareable
    rw [hblobs.length_eq, hblobs.dedup.length_eq, ← hf'.shareable] at hcount
    exact Nat.add_right_cancel hcount
  · intro k k'
    rw [hf.together_iff, hf'.together_iff]
    exact ⟨hnodes.together, hnodes.symm.together⟩

end Alike

end Compilation

end AheadOfTime
