import AheadOfTime.Proofs.Except
import AheadOfTime.Proofs.Node.Identity
import AheadOfTime.Proofs.Symbol.Kinds

/-! When questions to a program succeed. A store that is already there serves as a guide: if it has
the nodes of all that a question asks for, with the contents that are brought along, and if the
backend compiles the method in question, the question succeeds on every store that holds nothing
beyond the guide, in whatever order its nodes were made (`query_yields`). -/

namespace AheadOfTime

variable {β : Type}

namespace Store

/-- The contents of the node of a key. -/
def contents (s : Store β) (k : Key) : Option Blob :=
  (s.lookup k).bind fun n => (s.node? n).bind Node.data

/-- Every key of a store is one of another, and blobs have the same contents in both. Handles may
differ. -/
structure Below (s t : Store β) : Prop where
  keys : ∀ k, (s.lookup k).isSome → (t.lookup k).isSome
  blobs : ∀ name, (s.lookup (.dataBlob name)).isSome →
    s.contents (.dataBlob name) = t.contents (.dataBlob name)

theorem below_empty (b : β) (t : Store β) : (Store.empty b).Below t := by
  constructor <;> simp [lookup, empty]

variable {s t : Store β} {n : NodeId} {k : Key}

theorem contents_of_lookup (hk : s.lookup k = some n) :
    s.contents k = (s.node? n).bind Node.data := by
  rw [contents, hk, Option.bind_some]

/-- Contents that agree with the node of a key are its contents. -/
theorem agrees_iff (hk : s.lookup k = some n) {data : Blob} :
    s.agrees n (some data) ↔ s.contents k = some data := by
  rw [contents_of_lookup hk]
  exact decide_eq_true_iff

end Store

namespace Program

variable {p : Program β} {s t : Store β} {n : NodeId}

/-- What is relied on of a store that serves as a guide. -/
structure Guide (p : Program β) (t : Store β) : Prop where
  lookup_iff : ∀ k n, t.lookup k = some n ↔ ∃ node, t.node? n = some node ∧ node.key = k
  named : ∀ n node, t.node? n = some node →
    p.world.nodeSymbol node.data.isSome node.key = .ok node.name
  size_le : t.size ≤ 0x100000000

theorem Sound.guide (hs : p.Sound s) (hsize : s.size ≤ 0x100000000) : p.Guide s :=
  ⟨hs.lookup_iff, hs.named, hsize⟩

theorem Steps.guide {b : β} (h : p.Steps (.empty b) s) : p.Guide s :=
  ((p.sound_empty b).steps h).guide (h.size_le (Nat.zero_le _))

/-- The keys of the slots of a store, in order. -/
def slotKeys (s : Store β) : List Key := s.nodes.toList.map (·.key)

theorem length_slotKeys (s : Store β) : (slotKeys s).length = s.size := by
  simp [slotKeys, Store.size]

theorem Guide.mem_slotKeys (ht : p.Guide t) {k : Key} :
    k ∈ slotKeys t ↔ (t.lookup k).isSome := by
  constructor
  · intro hk
    obtain ⟨node, hnode, rfl⟩ := List.mem_map.mp hk
    obtain ⟨i, hi, hget⟩ := List.mem_iff_getElem.mp hnode
    have hlt : i < 0x100000000 :=
      Nat.lt_of_lt_of_le (by simpa [Store.size] using hi) ht.size_le
    refine Option.isSome_iff_exists.mpr ⟨⟨i, hlt⟩, (ht.lookup_iff _ _).mpr ⟨node, ?_, rfl⟩⟩
    rw [Store.node?, Array.getElem?_eq_some_iff]
    exact ⟨by simpa using hi, by simpa using hget⟩
  · intro hk
    obtain ⟨n, hn⟩ := Option.isSome_iff_exists.mp hk
    obtain ⟨node, hnode, rfl⟩ := (ht.lookup_iff k n).mp hn
    obtain ⟨hlt, hget⟩ := Array.getElem?_eq_some_iff.mp hnode
    exact List.mem_map.mpr ⟨node, by rw [← hget]; simp, rfl⟩

theorem Guide.nodup_slotKeys (hs : p.Guide s) : (slotKeys s).Nodup := by
  rw [List.nodup_iff_injective_get]
  rintro ⟨i, hi⟩ ⟨j, hj⟩ hij
  have hlt : i < s.nodes.size := Nat.lt_of_lt_of_eq hi (length_slotKeys s)
  have hlt' : j < s.nodes.size := Nat.lt_of_lt_of_eq hj (length_slotKeys s)
  have hkey (l : Nat) (hl : l < s.nodes.size) : s.lookup s.nodes[l].key =
      some ⟨l, Nat.lt_of_lt_of_le hl hs.size_le⟩ :=
    (hs.lookup_iff _ _).mpr ⟨_, Array.getElem?_eq_getElem hl, rfl⟩
  have hsame : s.nodes[i].key = s.nodes[j].key := by
    simp only [slotKeys, List.get_eq_getElem, List.getElem_map, Array.getElem_toList] at hij
    exact hij
  have hi' := hkey i hlt
  rw [hsame, hkey j hlt'] at hi'
  have := congrArg NodeId.index (Option.some.inj hi')
  exact Fin.ext this.symm

/-- A store that lacks a key of the guide has room for it. -/
theorem Guide.size_lt (hs : p.Guide s) (ht : p.Guide t) (hb : s.Below t) {k : Key}
    (hk : s.lookup k = none) (hkt : (t.lookup k).isSome) : s.size < 0x100000000 := by
  have hnodup : (k :: slotKeys s).Nodup := by
    refine List.nodup_cons.mpr ⟨fun hmem => ?_, hs.nodup_slotKeys⟩
    rw [hs.mem_slotKeys, hk] at hmem
    cases hmem
  have hsub : (k :: slotKeys s) ⊆ slotKeys t := by
    intro k' hk'
    rcases List.mem_cons.mp hk' with rfl | hk'
    · exact ht.mem_slotKeys.mpr hkt
    · exact ht.mem_slotKeys.mpr (hb.keys k' (hs.mem_slotKeys.mp hk'))
  have hle := (List.subperm_of_subset hnodup hsub).length_le
  rw [List.length_cons, length_slotKeys, length_slotKeys] at hle
  exact Nat.lt_of_lt_of_le hle ht.size_le

/-- The symbol of a key that a store has does not depend on the contents brought along, as long as
blobs come with some. -/
theorem Guide.nodeSymbol_eq (ht : p.Guide t) {k : Key} {node : Node} (hn : t.node? n = some node)
    (hkey : node.key = k) {hasData : Bool} (hblob : ∀ name, k = .dataBlob name → hasData) :
    p.world.nodeSymbol hasData k = .ok node.name := by
  have hnamed := ht.named n node hn
  rw [hkey] at hnamed
  cases k with
  | dataBlob name =>
    simp only [World.nodeSymbol] at hnamed ⊢
    split at hnamed
    · cases hnamed
    · rename_i hname
      split at hnamed
      · rw [if_neg hname, if_pos (hblob name rfl), hnamed]
      · cases hnamed
  | _ => exact hnamed

/-- What a request brings along is the contents of a blob, or nothing. -/
theorem isSome_data_of_key {r : Request} {name : String} (h : p.key r = .dataBlob name) :
    r.data.isSome := by
  obtain ⟨data, rfl⟩ := isFor_of_key h
  rfl

theorem data_eq_none_of_key {r : Request} (h : ∀ name, p.key r ≠ .dataBlob name) :
    r.data = none := by
  cases r with
  | dataBlob name data => exact absurd rfl (h name)
  | _ => rfl

/-- A guide has a node that serves a request. -/
def Available (p : Program β) (t : Store β) (r : Request) : Prop := ∃ n, p.Serves r n t

/-- A store as it may be while a guide is followed. -/
structure Follows (p : Program β) (t s : Store β) : Prop where
  sound : p.Sound s
  size_le : s.size ≤ 0x100000000
  below : s.Below t

theorem Follows.empty (p : Program β) (t : Store β) (b : β) : p.Follows t (.empty b) :=
  ⟨p.sound_empty b, Nat.zero_le _, Store.below_empty b t⟩

theorem Sound.contents_of_node (hs : p.Sound s) {node : Node} (hn : s.node? n = some node) :
    s.contents node.key = node.data := by
  rw [Store.contents_of_lookup ((hs.lookup_iff _ n).mpr ⟨node, hn, rfl⟩), hn, Option.bind_some]

theorem Sound.contents_push (hs : p.Sound s) (hn : n.index = s.size) {node : Node} {k : Key} :
    (s.push n node).contents k = if k = node.key then node.data else s.contents k := by
  rw [Store.contents, Store.lookup_push]
  split
  · rw [Option.bind_some, Store.node?_push_self hn]
    rfl
  · cases hk : s.lookup k with
    | none =>
      rw [Store.contents, hk]
      rfl
    | some m =>
      obtain ⟨x, hx, -⟩ := (hs.lookup_iff k m).mp hk
      rw [Store.contents_of_lookup hk, hx, Option.bind_some,
        (Store.node?_push hn).mpr (.inl hx)]

/-- Adding the node of a request that the guide serves stays below the guide. -/
theorem Follows.below_push (h : p.Follows t s) (hn : n.index = s.size) {name : String} {r : Request}
    (hav : p.Available t r) : (s.push n ⟨p.key r, name, r.data, none⟩).Below t := by
  obtain ⟨m, hserves⟩ := hav
  constructor
  · intro k hk
    rw [Store.lookup_push] at hk
    split at hk
    · rename_i hkey
      rw [show k = p.key r from hkey, hserves.lookup]
      rfl
    · exact h.below.keys k hk
  · intro name' hname'
    rw [h.sound.contents_push hn]
    split
    · rename_i hkey
      have hkey : Key.dataBlob name' = p.key r := hkey
      obtain ⟨data, rfl⟩ := isFor_of_key hkey.symm
      have hagrees : t.agrees m (some data) := hserves.agrees
      rw [hkey, (Store.agrees_iff hserves.lookup).mp hagrees]
      rfl
    · rename_i hkey
      rw [Store.lookup_push, if_neg hkey] at hname'
      exact h.below.blobs name' hname'

/-- Work on a store that follows a guide succeeds, and leaves a store that does. -/
def Yields {α : Type} (p : Program β) (t s : Store β) (x : Work β α) : Prop :=
  ∃ a s', x.run s = (.ok a, s') ∧ p.Follows t s'

theorem obtain_missing {k : Key} {data : Option Blob} {name : String} (hk : s.lookup k = none)
    (hname : p.world.nodeSymbol data.isSome k = .ok name) (hroom : s.size < 0x100000000)
    (requestedBy : Option NodeId) : (p.obtain k data requestedBy).run s =
      (.ok ⟨s.size, hroom⟩, s.push ⟨s.size, hroom⟩ ⟨k, name, data, none⟩) := by
  have hid : NodeId.ofIndex? s.nodes.size = some ⟨s.size, hroom⟩ := dif_pos hroom
  show p.obtain k data requestedBy s = _
  rw [obtain, ExceptT.mk, hk]
  dsimp only
  rw [hname]
  dsimp only
  rw [Store.add, hid]
  rfl

/-- A request that the guide serves succeeds. -/
theorem resolve_yields (ht : p.Guide t) (hs : p.Follows t s) (requestedBy : Option NodeId)
    {r : Request} (hav : p.Available t r) :
    p.Yields t s (p.resolve requestedBy r) := by
  obtain ⟨m, hserves⟩ := hav
  rw [resolve, ← key]
  cases hk : s.lookup (p.key r) with
  | some n =>
    have hagrees : s.agrees n r.data := by
      cases hdata : r.data with
      | none => rfl
      | some data =>
        have hm : t.agrees m (some data) := hdata ▸ hserves.agrees
        obtain ⟨name, hname⟩ : ∃ name, p.key r = .dataBlob name := by
          by_contra hnone
          rw [data_eq_none_of_key fun name hname => hnone ⟨name, hname⟩] at hdata
          cases hdata
        rw [Store.agrees_iff hserves.lookup, hname] at hm
        rw [Store.agrees_iff hk, hname, ← hm]
        exact hs.below.blobs name (hname ▸ Option.isSome_iff_exists.mpr ⟨n, hk⟩)
    exact ⟨n, s, by rw [obtain_existing hk, if_pos hagrees], hs⟩
  | none =>
    obtain ⟨node, hnode, hkey⟩ := (ht.lookup_iff _ _).mp hserves.lookup
    have hname := ht.nodeSymbol_eq hnode hkey fun name h => isSome_data_of_key h
    have hroom := (hs.sound.guide hs.size_le).size_lt ht hs.below hk
      (Option.isSome_iff_exists.mpr ⟨m, hserves.lookup⟩)
    have hrun : (p.obtain (p.key r) r.data requestedBy).run s =
        (.ok ⟨s.size, hroom⟩, s.push ⟨s.size, hroom⟩ ⟨p.key r, node.name, r.data, none⟩) :=
      obtain_missing hk hname hroom requestedBy
    have hcreate : p.Create s (s.push ⟨s.size, hroom⟩ ⟨p.key r, node.name, r.data, none⟩) :=
      .node hk rfl hname
    refine ⟨_, _, hrun, hs.sound.create hcreate, ?_, hs.below_push rfl ⟨m, hserves⟩⟩
    exact Steps.size_le (.single (.create hcreate)) hs.size_le

theorem Yields.pure {α : Type} (hs : p.Follows t s) (a : α) : p.Yields t s (pure a) :=
  ⟨a, s, rfl, hs⟩

theorem Yields.bind {α γ : Type} {x : Work β α} {f : α → Work β γ} (hx : p.Yields t s x)
    (hf : ∀ a s', x.run s = (.ok a, s') → p.Follows t s' → p.Yields t s' (f a)) :
    p.Yields t s (x >>= f) := by
  obtain ⟨a, s', hrun, hs'⟩ := hx
  obtain ⟨c, s'', hrun', hs''⟩ := hf a s' hrun hs'
  refine ⟨c, s'', ?_, hs''⟩
  rw [run_bind, hrun]
  exact hrun'

theorem Yields.mapM {α γ : Type} {f : α → Work β γ} {xs : List α}
    (hf : ∀ x ∈ xs, ∀ s, p.Follows t s → p.Yields t s (f x)) (hs : p.Follows t s) :
    p.Yields t s (xs.mapM f) := by
  induction xs generalizing s with
  | nil => exact .pure hs []
  | cons x xs ih =>
    rw [List.mapM_cons]
    refine (hf x List.mem_cons_self s hs).bind fun y s₁ _ hs₁ => ?_
    refine (ih (fun x hx => hf x (List.mem_cons_of_mem _ hx)) hs₁).bind fun ys s₂ _ hs₂ => ?_
    exact .pure hs₂ _

theorem edge_yields (ht : p.Guide t) (hs : p.Follows t s) {r : Reference}
    (hav : p.Available t r.target) : p.Yields t s (p.edge n r) :=
  (resolve_yields ht hs (some n) hav).bind fun _ _ _ hs₁ => .pure hs₁ _

theorem overrideEdge_yields (ht : p.Guide t) (hs : p.Follows t s) {o : Override}
    (hcondition : p.Available t (.virtualMethodUse o.declaration))
    (htarget : p.Available t (.methodEntrypoint o.implementation)) :
    p.Yields t s (p.overrideEdge n o) := by
  refine (resolve_yields ht hs (some n) hcondition).bind fun _ s₁ _ hs₁ => ?_
  exact (resolve_yields ht hs₁ (some n) htarget).bind fun _ _ _ hs₂ => .pure hs₂ _

/-- A guide has what a node with this key asks for: it serves the references of the key, those of
the body, which the backend can make in any state, and both ends of each override. -/
structure Supplied (p : Program β) (t : Store β) (k : Key) : Prop where
  own : ∃ own, p.world.references k = .ok own ∧ ∀ r ∈ own, p.Available t r.target
  body : ∀ m, k = .methodEntrypoint m → ∀ b, ∃ body b',
    p.backend.compile p.world p.settings m b = (.ok body, b') ∧
      ∀ r ∈ body.references, p.Available t r.target
  overrides : ∃ overrides, p.world.overridesOf k = .ok overrides ∧ ∀ o ∈ overrides,
    p.Available t (.virtualMethodUse o.declaration) ∧
      p.Available t (.methodEntrypoint o.implementation)

variable {node : Node}

/-- Neither the state of the backend nor bodies matter to a guide. -/
theorem Follows.compile (hs : p.Follows t s) (hn : s.node? n = some node) {m : MethodId}
    (hkey : node.key = .methodEntrypoint m) {body : MethodBody} {b : β}
    (hb : p.backend.compile p.world p.settings m s.backend = (.ok body, b)) :
    p.Follows t ({ s with backend := b }.setBody n body) := by
  refine ⟨hs.sound.setBody hn hkey hb, ?_, ?_, ?_⟩
  · simpa [Store.size, Store.setBody] using hs.size_le
  · exact hs.below.keys
  · intro name hname
    obtain ⟨m', hset⟩ := Option.isSome_iff_exists.mp hname
    have hm' : s.lookup (.dataBlob name) = some m' := hset
    have hsame : ({ s with backend := b }.setBody n body).contents (.dataBlob name) =
        s.contents (.dataBlob name) := by
      rw [Store.contents_of_lookup hset, Store.contents_of_lookup hm', Store.node?_setBody]
      show ((s.node? m').map _).bind _ = _
      cases s.node? m' with
      | none => rfl
      | some x =>
        rw [Option.map_some, Option.bind_some, Option.bind_some]
        split <;> rfl
    rw [hsame]
    exact hs.below.blobs name (Option.isSome_iff_exists.mpr ⟨m', hm'⟩)

theorem body_yields (hs : p.Follows t s) (hn : s.node? n = some node) {m : MethodId}
    (hkey : node.key = .methodEntrypoint m)
    (hcompile : ∀ b, ∃ body b', p.backend.compile p.world p.settings m b = (.ok body, b')) :
    p.Yields t s (p.body n node m) := by
  unfold body
  split
  · exact .pure hs _
  · obtain ⟨body, b, hb⟩ := hcompile s.backend
    have hrun : (p.runBackend node.name m).run s = (.ok body, { s with backend := b }) := by
      rw [runBackend, ExceptT.run_mk, hb]
    refine ⟨body, _, ?_, hs.compile hn hkey hb⟩
    rw [run_bind, hrun]
    rfl

theorem bodyReferences_yields (hs : p.Follows t s) (hn : s.node? n = some node)
    (hk : p.Supplied t node.key) : p.Yields t s (p.bodyReferences n node) := by
  unfold bodyReferences
  split
  · rename_i m hkey
    refine (body_yields hs hn hkey fun b => ?_).bind fun body s₁ _ hs₁ => .pure hs₁ _
    obtain ⟨body, b', hb, -⟩ := hk.body m hkey b
    exact ⟨body, b', hb⟩
  · exact .pure hs _

/-- What a body refers to is available, whichever state of the backend it was made in. -/
theorem Supplied.found (hk : p.Supplied t node.key) (hs : p.Sound s) (hn : s.node? n = some node) :
    ∀ r ∈ node.found, p.Available t r.target := by
  intro r hr
  unfold Node.found at hr
  split at hr
  · rename_i m body hkey hbody
    obtain ⟨m', b, b', hkey', hb⟩ := hs.compiled n node body hn hbody
    obtain rfl : m = m' := by
      rw [hkey] at hkey'
      cases hkey'
      rfl
    obtain ⟨body', b'', hb', hav⟩ := hk.body m hkey b
    rw [hb] at hb'
    cases hb'
    exact hav r hr
  · cases hr

theorem edges_yields (ht : p.Guide t) (hs : p.Follows t s) (hn : s.node? n = some node)
    (hk : p.Supplied t node.key) : p.Yields t s (p.edges n) := by
  obtain ⟨own, hown, hav⟩ := hk.own
  have hrest : p.Yields t s (do
      let ownEdges ← own.mapM (p.edge n)
      let found ← p.bodyReferences n node
      let foundEdges ← found.mapM (p.edge n)
      pure (ownEdges ++ foundEdges)) := by
    refine (Yields.mapM (fun r hr s hs => edge_yields ht hs (hav r hr)) hs).bind
      fun ownEdges s₁ hrun hs₁ => ?_
    have hn₁ := Creates.node? ((mapM_edge_does own s).of_run hrun).2.1 hn
    refine (bodyReferences_yields hs₁ hn₁ hk).bind fun found s₂ hrun hs₂ => ?_
    obtain ⟨-, node', hn₂, hkey, -, rfl⟩ := (bodyReferences_does hn₁).of_run hrun
    have hfound := Supplied.found (hkey ▸ hk) hs₂.sound hn₂
    exact (Yields.mapM (fun r hr s hs => edge_yields ht hs (hfound r hr)) hs₂).bind
      fun _ _ _ hs₃ => .pure hs₃ _
  obtain ⟨es, s', hrun, hs'⟩ := hrest
  exact ⟨es, s', (edges_run hn hown).trans hrun, hs'⟩

theorem conditional_yields (ht : p.Guide t) (hs : p.Follows t s) (hn : s.node? n = some node)
    (hk : p.Supplied t node.key) : p.Yields t s (p.conditional n) := by
  obtain ⟨overrides, hoverrides, hav⟩ := hk.overrides
  have hrun : (p.conditional n).run s = (overrides.mapM (p.overrideEdge n)).run s := by
    rw [conditional, run_bind, node_run, hn, Option.elim]
    dsimp only
    rw [hoverrides]
    rfl
  obtain ⟨es, s', hrun', hs'⟩ := Yields.mapM (fun o ho s hs =>
    overrideEdge_yields (n := n) ht hs (hav o ho).1 (hav o ho).2) hs
  exact ⟨es, s', hrun.trans hrun', hs'⟩

/-- A question about a node succeeds if the guide has what the node asks for. -/
theorem query_yields (ht : p.Guide t) (hs : p.Follows t s) (hn : s.node? n = some node)
    (hk : p.Supplied t node.key) :
    ∃ deps s', p.graph.query n s = (.ok deps, s') ∧ p.Follows t s' := by
  obtain ⟨es, s₁, hedges, hs₁⟩ := edges_yields ht hs hn hk
  obtain ⟨body, hn₁, -⟩ := (Steps.grows ((edges_does n s).of_run hedges).1).nodes n node hn
  obtain ⟨ds, s₂, hconditional, hs₂⟩ := conditional_yields ht hs₁ hn₁ hk
  refine ⟨⟨es, ds⟩, s₂, ?_, hs₂⟩
  have hedges : p.graph.edges n s = (.ok es, s₁) := hedges
  have hconditional : p.graph.conditional n s₁ = (.ok ds, s₂) := hconditional
  rw [Graph.query, hedges]
  dsimp only
  rw [hconditional]

end Program

end AheadOfTime
