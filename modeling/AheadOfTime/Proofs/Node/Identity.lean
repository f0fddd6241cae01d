import AheadOfTime.Codegen.Scripted
import AheadOfTime.Proofs.Except
import AheadOfTime.Proofs.Node.Answers
import AheadOfTime.World.Population
import Mathlib

/-! One node for each key, whatever is asked of a program and in whatever order, and whether or not
it succeeds. What a slot of the arena holds of its node is settled when the node is made
(`Steps.slots`); the contents of a blob come from the first request for it (`NewBlobs`). -/

namespace AheadOfTime

variable {β : Type}

/-- What can be asked of a program. Each of these may make nodes. -/
inductive Operation where
  | obtain (k : Key)
  | resolve (r : Request)
  | edges (n : NodeId)
  | conditional (n : NodeId)

namespace Program

/-- The store that an operation leaves, also when it fails. -/
def perform (p : Program β) (s : Store β) : Operation → Store β
  | .obtain k => ((p.nodeFor k).run s).2
  | .resolve r => ((p.resolve none r).run s).2
  | .edges n => ((p.edges n).run s).2
  | .conditional n => ((p.conditional n).run s).2

def performAll (p : Program β) (b : β) (os : List Operation) : Store β :=
  os.foldl p.perform (.empty b)

/-- The requests that an operation makes, as far as it gets, in their order: those of the key of a
node before those of its body. They are read off the store that the operation leaves. -/
def asked (p : Program β) (s : Store β) : Operation → List Request
  | .obtain _ => []
  | .resolve r => [r]
  | .edges n =>
    match s.node? n with
    | some node =>
      (((p.world.references node.key).toOption.getD []) ++ node.found).map (·.target)
    | none => []
  | .conditional n =>
    match s.node? n with
    | some node =>
      ((p.world.overridesOf node.key).toOption.getD []).flatMap fun o =>
        [.virtualMethodUse o.declaration, .methodEntrypoint o.implementation]
    | none => []

end Program

/-- Whether a request is for the blob with a name. -/
def Request.isFor (name : String) : Request → Bool
  | .dataBlob name' _ => name' = name
  | _ => false

namespace Store

/-- What slots hold, apart from bodies. -/
def slots (s : Store β) : List (Key × String × Option Blob) :=
  s.nodes.toList.map fun node => (node.key, node.name, node.data)

theorem slots_push (s : Store β) (n : NodeId) (node : Node) :
    (s.push n node).slots = s.slots ++ [(node.key, node.name, node.data)] := by
  simp [slots, push]

theorem slots_setBody (s : Store β) (n : NodeId) (body : MethodBody) :
    (s.setBody n body).slots = s.slots := by
  refine List.ext_getElem? fun i => ?_
  simp only [slots, setBody, List.getElem?_map, Array.getElem?_toList, Array.getElem?_modify]
  split <;> cases s.nodes[i]? <;> rfl

end Store

namespace Program

variable {p : Program β} {s s' : Store β} {n : NodeId}

theorem Step.slots (h : p.Step s s') : s.slots <+: s'.slots := by
  cases h with
  | create h =>
    obtain ⟨-, -, -⟩ := h
    rw [Store.slots_push]
    exact List.prefix_append _ _
  | compile hn hkey hbody hb =>
    rw [Store.slots_setBody]
    exact List.prefix_rfl
  | fail hn hkey hbody hb => exact List.prefix_rfl

theorem Steps.slots (h : p.Steps s s') : s.slots <+: s'.slots := by
  induction h with
  | refl => exact List.prefix_rfl
  | tail _ hstep ih => exact ih.trans hstep.slots

/-- Handles reach every slot. -/
theorem Steps.size_le (h : p.Steps s s') (hs : s.size ≤ 0x100000000) : s'.size ≤ 0x100000000 := by
  induction h with
  | refl => exact hs
  | tail _ hstep ih =>
    cases hstep with
    | create h =>
      obtain @⟨m, k, data, name, -, hm, -⟩ := h
      have hlt := m.index_lt
      simp only [Store.size, Store.push, Array.size_push] at hm ⊢
      omega
    | compile hn hkey hbody hb => simpa [Store.size, Store.setBody] using ih
    | fail hn hkey hbody hb => exact ih

/-- A store in order, with no more slots than handles reach. -/
structure Settled (p : Program β) (s : Store β) : Prop where
  sound : p.Sound s
  size_le : s.size ≤ 0x100000000

theorem settled_empty (p : Program β) (b : β) : p.Settled (.empty b) :=
  ⟨p.sound_empty b, Nat.zero_le _⟩

theorem Settled.steps (hs : p.Settled s) (h : p.Steps s s') : p.Settled s' :=
  ⟨hs.sound.steps h, h.size_le hs.size_le⟩

/-- Blobs that were not there before have the contents of the first request for them. -/
def NewBlobs (s s' : Store β) (rs : List Request) : Prop :=
  ∀ name n, s.lookup (.dataBlob name) = none → s'.lookup (.dataBlob name) = some n →
    ∃ node data, s'.node? n = some node ∧ node.data = some data ∧
      rs.find? (·.isFor name) = some (.dataBlob name data)

theorem NewBlobs.of_index (h : s'.index = s.index) (rs : List Request) : NewBlobs s s' rs := by
  intro name n hnone hsome
  rw [Store.lookup, h] at hsome
  simp [Store.lookup, hsome] at hnone

/-- Requests that were not made, since one before them failed, do not count. -/
theorem NewBlobs.append {rs : List Request} (h : NewBlobs s s' rs) (more : List Request) :
    NewBlobs s s' (rs ++ more) := by
  intro name n hnone hsome
  obtain ⟨node, data, hn, hdata, hfind⟩ := h name n hnone hsome
  exact ⟨node, data, hn, hdata, by rw [List.find?_append, hfind, Option.some_or]⟩

/-- A request for a blob is bound to no other key than that of the blob. -/
theorem key_of_isFor {name : String} {r : Request} (h : r.isFor name) :
    ∃ data, r = .dataBlob name data ∧ p.key r = .dataBlob name := by
  cases r with
  | dataBlob name' data =>
    obtain rfl : name' = name := by simpa [Request.isFor] using h
    exact ⟨data, rfl, rfl⟩
  | _ => cases h

theorem isFor_of_key {name : String} {r : Request} (h : p.key r = .dataBlob name) :
    ∃ data, r = .dataBlob name data := by
  cases r with
  | dataBlob name' data =>
    cases h
    exact ⟨data, rfl⟩
  | methodEntrypoint m | typeHandle t | methodDictionary m | typeDictionary t =>
    simp only [key, CompilationUnit.bind] at h
    split at h <;> cases h
  | virtualMethodUse m | externSymbol name' => cases h

/-- All of a list of requests have their nodes. -/
def Met (p : Program β) (s : Store β) (rs : List Request) : Prop :=
  ∀ r ∈ rs, ∃ n, s.lookup (p.key r) = some n

theorem NewBlobs.trans {s'' : Store β} {rs rs' : List Request} (h : NewBlobs s s' rs)
    (hrs : p.Met s' rs) (hg : s'.Grows s'') (h' : NewBlobs s' s'' rs') :
    NewBlobs s s'' (rs ++ rs') := by
  intro name n hnone hsome
  cases hmid : s'.lookup (.dataBlob name) with
  | none =>
    obtain ⟨node, data, hn, hdata, hfind⟩ := h' name n hmid hsome
    have hnotyet : rs.find? (·.isFor name) = none := by
      refine List.find?_eq_none.mpr fun r hr hfor => ?_
      obtain ⟨-, -, hkey⟩ := key_of_isFor (p := p) hfor
      obtain ⟨m, hm⟩ := hrs r hr
      rw [hkey, hmid] at hm
      cases hm
    exact ⟨node, data, hn, hdata, by rw [List.find?_append, hnotyet, Option.none_or, hfind]⟩
  | some m =>
    obtain rfl : m = n := by
      rw [hg.lookup _ _ hmid] at hsome
      exact Option.some.inj hsome
    obtain ⟨node, data, hn, hdata, hfind⟩ := h name m hnone hmid
    obtain ⟨body, hn', -⟩ := hg.nodes m node hn
    exact ⟨_, data, hn', hdata, by rw [List.find?_append, hfind, Option.some_or]⟩

theorem newBlobs_bind {α γ : Type} {x : Work β α} {f : α → Work β γ} (rs : List Request)
    (later : Store β → List Request) (hx : NewBlobs s (x.run s).2 rs)
    (hf : ∀ a s', x.run s = (.ok a, s') → p.Met s' rs ∧ s'.Grows ((f a).run s').2 ∧
      NewBlobs s' ((f a).run s').2 (later ((f a).run s').2)) :
    NewBlobs s ((x >>= f).run s).2 (rs ++ later ((x >>= f).run s).2) := by
  rw [run_bind]
  split
  · rename_i a s₁ hrun
    rw [hrun] at hx
    obtain ⟨hmet, hg, hlater⟩ := hf a s₁ hrun
    exact hx.trans hmet hg hlater
  · rename_i e s₁ hrun
    rw [hrun] at hx
    exact hx.append _

theorem obtain_newBlobs (k : Key) (requestedBy : Option NodeId) (s : Store β) :
    NewBlobs s ((p.obtain k none requestedBy).run s).2 [] := by
  rcases p.obtain_cases k none requestedBy s with
    ⟨n, -, -, hrun⟩ | ⟨fault, hrun⟩ | ⟨n, name, hk, hn, hname, hrun⟩ <;> rw [hrun]
  · exact .of_index rfl _
  · exact .of_index rfl _
  · intro name' m hnone hsome
    rw [Store.lookup_push] at hsome
    split at hsome
    · rename_i hkey
      have hkey : Key.dataBlob name' = k := hkey
      rw [← hkey, World.nodeSymbol] at hname
      split at hname <;> cases hname
    · simp [hnone] at hsome

theorem resolve_newBlobs (requestedBy : Option NodeId) (r : Request) (s : Store β) :
    NewBlobs s ((p.resolve requestedBy r).run s).2 [r] := by
  rcases p.obtain_cases (p.key r) r.data requestedBy s with
    ⟨n, -, -, hrun⟩ | ⟨fault, hrun⟩ | ⟨n, name, hk, hn, hname, hrun⟩ <;>
    rw [resolve, ← key, hrun]
  · exact .of_index rfl _
  · exact .of_index rfl _
  · intro name' m hnone hsome
    rw [Store.lookup_push] at hsome
    split at hsome
    · rename_i hkey
      have hkey : Key.dataBlob name' = p.key r := hkey
      obtain ⟨data, rfl⟩ := isFor_of_key hkey.symm
      cases hsome
      exact ⟨_, data, Store.node?_push_self hn, rfl, by simp [Request.isFor]⟩
    · simp [hnone] at hsome

theorem run_bind_pure {α γ : Type} (x : Work β α) (g : α → γ) (s : Store β) :
    ((x >>= fun a => pure (g a)).run s).2 = (x.run s).2 := by
  rw [run_bind]
  rcases x.run s with ⟨e | a, s'⟩ <;> rfl

theorem edge_newBlobs (r : Reference) (s : Store β) :
    NewBlobs s ((p.edge n r).run s).2 [r.target] := by
  rw [edge, run_bind_pure]
  exact resolve_newBlobs _ _ _

theorem overrideEdge_newBlobs (o : Override) (s : Store β) :
    NewBlobs s ((p.overrideEdge n o).run s).2
      [.virtualMethodUse o.declaration, .methodEntrypoint o.implementation] := by
  refine newBlobs_bind (p := p) [.virtualMethodUse o.declaration]
    (fun _ => [.methodEntrypoint o.implementation]) (resolve_newBlobs _ _ s)
    fun condition s₁ hrun => ?_
  obtain ⟨-, hcondition⟩ := (resolve_does _ _ s).of_run hrun
  rw [run_bind_pure]
  refine ⟨fun r hr => ?_, Creates.grows (resolve_does _ _ s₁).steps, resolve_newBlobs _ _ s₁⟩
  obtain rfl := List.mem_singleton.mp hr
  exact ⟨condition, hcondition.lookup⟩

/-- Over a list of pieces of work it is enough that each makes its own requests, and has met them
if it succeeds. -/
theorem mapM_newBlobs {α γ : Type} {f : α → Work β γ} {asks : α → List Request}
    {P : α → γ → Store β → Prop} (hf : ∀ x s, Does p.Create s (f x) (P x))
    (hmet : ∀ x y s, P x y s → p.Met s (asks x))
    (hnew : ∀ x s, NewBlobs s ((f x).run s).2 (asks x)) (xs : List α) (s : Store β) :
    NewBlobs s ((xs.mapM f).run s).2 (xs.flatMap asks) := by
  induction xs generalizing s with
  | nil => exact .of_index rfl _
  | cons x xs ih =>
    rw [List.mapM_cons, List.flatMap_cons]
    refine newBlobs_bind (p := p) (asks x) (fun _ => xs.flatMap asks) (hnew x s)
      fun y s₁ hrun => ?_
    have hrest : Does p.Create s₁ (xs.mapM f) _ :=
      Does.mapM (fun x s => (hf x s).mono fun _ _ _ => trivial) (fun _ h => h) xs s₁
    rw [run_bind_pure]
    exact ⟨hmet x y s₁ ((hf x s).of_run hrun).2, Creates.grows hrest.steps, ih s₁⟩

theorem mapM_edge_newBlobs (rs : List Reference) (s : Store β) :
    NewBlobs s ((rs.mapM (p.edge n)).run s).2 (rs.map (·.target)) := by
  rw [List.map_eq_flatMap]
  refine mapM_newBlobs (edge_does n) (fun r e s he r' hr' => ?_) edge_newBlobs rs s
  obtain rfl := List.mem_singleton.mp hr'
  exact ⟨e.target, he.serves.lookup⟩

theorem mapM_overrideEdge_newBlobs (os : List Override) (s : Store β) :
    NewBlobs s ((os.mapM (p.overrideEdge n)).run s).2 (os.flatMap fun o =>
      [.virtualMethodUse o.declaration, .methodEntrypoint o.implementation]) := by
  refine mapM_newBlobs (overrideEdge_does n) (fun o e s he r hr => ?_) overrideEdge_newBlobs os s
  rcases List.mem_pair.mp hr with rfl | rfl
  · exact ⟨e.condition, he.condition⟩
  · exact ⟨e.target, he.target⟩

theorem bodyReferences_index (n : NodeId) (node : Node) (s : Store β) :
    ((p.bodyReferences n node).run s).2.index = s.index := by
  have hbody (m : MethodId) : ((p.body n node m).run s).2.index = s.index := by
    unfold body
    split
    · rfl
    · rw [run_bind, runBackend, ExceptT.run_mk]
      rcases p.backend.compile p.world p.settings m s.backend with ⟨cause | body, b⟩ <;> rfl
  unfold bodyReferences
  split
  · rw [run_bind_pure]
    exact hbody _
  · rfl

/-- The references in bodies are asked for last, so that the store at the end tells them. -/
theorem foundEdges_newBlobs {node : Node} (hn : s.node? n = some node) {γ : Type}
    (g : List Edge → γ) :
    let x : Work β γ := do
      let found ← p.bodyReferences n node
      let foundEdges ← found.mapM (p.edge n)
      pure (g foundEdges)
    s.Grows (x.run s).2 ∧ NewBlobs s (x.run s).2
      ((((x.run s).2.node? n).elim [] Node.found).map (·.target)) := by
  intro x
  have hdoes : Does p.Step s x fun _ _ => True :=
    (bodyReferences_does hn).bind fun found s₁ _ _ =>
      (mapM_edge_does found s₁).bind fun _ _ _ _ => .pure trivial
  refine ⟨Steps.grows hdoes.steps, ?_⟩
  refine newBlobs_bind (p := p) []
    (fun s' => ((s'.node? n).elim [] Node.found).map (·.target))
    (.of_index (bodyReferences_index n node s) []) fun found s₁ hrun => ?_
  obtain ⟨-, node', hn₁, -, -, rfl⟩ := (bodyReferences_does hn).of_run hrun
  have hmap := (Does.mapM (edge_does (p := p) n)
    (fun h => EdgeFor.grows (Step.create h).grows) node'.found s₁).steps
  rw [run_bind_pure, Creates.node? hmap hn₁]
  exact ⟨by simp [Met], Creates.grows hmap, mapM_edge_newBlobs _ _⟩

theorem edges_run {node : Node} {own : List Reference} (hn : s.node? n = some node)
    (hown : p.world.references node.key = .ok own) : (p.edges n).run s =
      ExceptT.run (do
        let ownEdges ← own.mapM (p.edge n)
        let found ← p.bodyReferences n node
        let foundEdges ← found.mapM (p.edge n)
        pure (ownEdges ++ foundEdges)) s := by
  rw [edges, run_bind, node_run, hn, Option.elim]
  dsimp only
  rw [hown]
  rfl

theorem edges_newBlobs (n : NodeId) (s : Store β) :
    NewBlobs s ((p.edges n).run s).2 (p.asked ((p.edges n).run s).2 (.edges n)) := by
  have hgrows := Steps.grows (edges_does (p := p) n s).steps
  cases hn : s.node? n with
  | none =>
    rw [edges, run_bind, node_run, hn]
    exact .of_index rfl _
  | some node =>
    obtain ⟨body, hn', -⟩ := hgrows.nodes n node hn
    cases hown : p.world.references node.key with
    | error e =>
      rw [edges, run_bind, node_run, hn, Option.elim]
      dsimp only
      rw [hown]
      exact .of_index rfl _
    | ok own =>
      have hnew := newBlobs_bind (p := p) (s := s) (x := own.mapM (p.edge n))
        (f := fun ownEdges => do
          let found ← p.bodyReferences n node
          let foundEdges ← found.mapM (p.edge n)
          pure (ownEdges ++ foundEdges))
        (own.map (·.target)) (fun s' => ((s'.node? n).elim [] Node.found).map (·.target))
        (mapM_edge_newBlobs own s) fun ownEdges s₁ hmap => by
          obtain ⟨-, hmade, hedges⟩ := (mapM_edge_does own s).of_run hmap
          refine ⟨fun r hr => ?_, foundEdges_newBlobs (hmade.node? hn) _⟩
          obtain ⟨ref, href, rfl⟩ := List.mem_map.mp hr
          obtain ⟨e, -, he⟩ := exists_mem_right hedges ref href
          exact ⟨e.target, he.serves.lookup⟩
      rw [← edges_run hn hown, hn'] at hnew
      rw [asked, hn']
      dsimp only
      rw [hown, List.map_append]
      exact hnew

theorem conditional_newBlobs (n : NodeId) (s : Store β) :
    NewBlobs s ((p.conditional n).run s).2
      (p.asked ((p.conditional n).run s).2 (.conditional n)) := by
  have hgrows := Steps.grows (conditional_does (p := p) n s).steps
  cases hn : s.node? n with
  | none =>
    rw [conditional, run_bind, node_run, hn]
    exact .of_index rfl _
  | some node =>
    obtain ⟨body, hn', -⟩ := hgrows.nodes n node hn
    rw [asked, hn']
    dsimp only
    rw [conditional, run_bind, node_run, hn, Option.elim]
    dsimp only
    cases hoverrides : p.world.overridesOf node.key with
    | error e => exact .of_index rfl _
    | ok overrides => exact mapM_overrideEdge_newBlobs overrides s

theorem perform_steps (p : Program β) (s : Store β) (o : Operation) :
    p.Steps s (p.perform s o) := by
  cases o with
  | obtain k => exact Creates.steps (obtain_does k none none s).steps
  | resolve r => exact Creates.steps (resolve_does none r s).steps
  | edges n => exact (edges_does n s).steps
  | conditional n => exact (conditional_does n s).steps

theorem perform_newBlobs (p : Program β) (s : Store β) (o : Operation) :
    NewBlobs s (p.perform s o) (p.asked (p.perform s o) o) := by
  cases o with
  | obtain k => exact obtain_newBlobs k none s
  | resolve r => exact resolve_newBlobs none r s
  | edges n => exact edges_newBlobs n s
  | conditional n => exact conditional_newBlobs n s

theorem performAll_append (p : Program β) (b : β) (os later : List Operation) :
    p.performAll b (os ++ later) = later.foldl p.perform (p.performAll b os) :=
  List.foldl_append

theorem foldl_perform_steps (p : Program β) (s : Store β) (os : List Operation) :
    p.Steps s (os.foldl p.perform s) := by
  induction os generalizing s with
  | nil => exact .refl
  | cons o os ih => exact (p.perform_steps s o).trans (ih _)

theorem performAll_steps (p : Program β) (b : β) (os later : List Operation) :
    p.Steps (p.performAll b os) (p.performAll b (os ++ later)) := by
  rw [performAll_append]
  exact p.foldl_perform_steps _ later

theorem performAll_sound (p : Program β) (b : β) (os : List Operation) :
    p.Sound (p.performAll b os) :=
  (p.sound_empty b).steps (p.foldl_perform_steps _ os)

/-- The operation that makes the node of a blob has asked for it with contents, for the first time
with those that the blob has. -/
theorem exists_first_request (p : Program β) (b : β) (os : List Operation) {name : String}
    {n : NodeId} (h : (p.performAll b os).lookup (.dataBlob name) = some n) :
    ∃ before o after node data, os = before ++ o :: after ∧
      (p.performAll b before).lookup (.dataBlob name) = none ∧
      (p.asked (p.performAll b (before ++ [o])) o).find? (·.isFor name) =
        some (.dataBlob name data) ∧
      (p.performAll b os).node? n = some node ∧ node.data = some data := by
  induction os using List.reverseRecOn with
  | nil => cases h
  | append_singleton os o ih =>
    have hgrows := (p.performAll_steps b os [o]).grows
    cases hbefore : (p.performAll b os).lookup (.dataBlob name) with
    | none =>
      have hnew := p.perform_newBlobs (p.performAll b os) o
      have hlast : p.performAll b (os ++ [o]) = p.perform (p.performAll b os) o :=
        p.performAll_append b os [o]
      rw [← hlast] at hnew
      obtain ⟨node, data, hn, hdata, hfind⟩ := hnew name n hbefore h
      exact ⟨os, o, [], node, data, rfl, hbefore, hfind, hn, hdata⟩
    | some m =>
      obtain rfl : m = n := by
        rw [hgrows.lookup _ _ hbefore] at h
        exact Option.some.inj h
      obtain ⟨before, o', after, node, data, rfl, hnone, hfind, hn, hdata⟩ := ih hbefore
      obtain ⟨body, hn', -⟩ := hgrows.nodes m node hn
      exact ⟨before, o', after ++ [o], _, data, by simp, hnone, hfind, hn', hdata⟩

/-- A request gives the node of its key, which it makes if there is none, or fails and leaves the
store as it is. -/
theorem obtain_node (p : Program β) (s : Store β) (k : Key) (data : Option Blob)
    (requestedBy : Option NodeId) :
    (∃ n s', (p.obtain k data requestedBy).run s = (.ok n, s') ∧ s'.lookup k = some n ∧
      (s' = s ∨ ∃ name, s.lookup k = none ∧ n.index = s.size ∧
        s' = s.push n ⟨k, name, data, none⟩)) ∨
    ∃ fault, (p.obtain k data requestedBy).run s =
      (.error (p.keyError s k requestedBy fault), s) := by
  rcases p.obtain_cases k data requestedBy s with
    ⟨n, hk, -, hrun⟩ | ⟨fault, hrun⟩ | ⟨n, name, hk, hn, -, hrun⟩
  · exact .inl ⟨n, s, hrun, hk, .inl rfl⟩
  · exact .inr ⟨fault, hrun⟩
  · exact .inl ⟨n, _, hrun, by rw [Store.lookup_push, if_pos rfl], .inr ⟨name, hk, hn, rfl⟩⟩

theorem obtain_existing {k : Key} (hk : s.lookup k = some n) (data : Option Blob)
    (requestedBy : Option NodeId) : (p.obtain k data requestedBy).run s =
      if s.agrees n data then (.ok n, s)
      else (.error (p.keyError s k requestedBy .otherContents), s) := by
  show p.obtain k data requestedBy s = _
  rw [obtain, ExceptT.mk, hk]

/-- A blob that is there can be asked for again with its own contents and no others. -/
theorem resolve_blob_iff {name : String} {node : Node}
    (hk : s.lookup (.dataBlob name) = some n) (hn : s.node? n = some node) (data : Blob)
    (requestedBy : Option NodeId) :
    (∃ m, ((p.resolve requestedBy (.dataBlob name data)).run s).1 = .ok m) ↔
      node.data = some data := by
  have hagrees : s.agrees n (some data) ↔ node.data = some data := by
    simp [Store.agrees, hn]
  have hrun := obtain_existing (p := p) hk (some data) requestedBy
  rw [← hagrees, show p.resolve requestedBy (.dataBlob name data) = _ from rfl]
  show (∃ m, ((p.obtain (.dataBlob name) (some data) requestedBy).run s).1 = .ok m) ↔ _
  rw [hrun]
  split <;> simp_all

/-- A method that refers to one blob twice, the second time with other contents, so that asking for
its edges fails halfway. -/
def twofold : Program CallLog where
  world := .populated [.module ⟨"App", ⟨1, 0, 0, 0⟩, [], "", 0, []⟩, .type ⟨0⟩ "" "Main" 0 none,
    .method ⟨0⟩ "Run" 0 false]
  unit := .modules [⟨0⟩]
  backend := Script.backend
    [(⟨0⟩, .compile [⟨.dataBlob "table" [1], "data"⟩, ⟨.dataBlob "table" [2], "data"⟩])]
  settings := ⟨.blended, false, []⟩

def twofoldAsked (n : NodeId) : List Operation := [.resolve (.methodEntrypoint ⟨0⟩), .edges n]

end Program

end AheadOfTime
