import AheadOfTime.Proofs.Compilation.Parallel
import AheadOfTime.Proofs.Marking.Repeated
import AheadOfTime.Proofs.Node.Progress

/-! Questions to a program that are asked again. Let a backend say the same of a method whenever it
is asked. Then work that is done again, on a store that has grown from what the work left, finds
the nodes and bodies that it made, so that it gives the same and leaves the store alone; or it fails
as it failed, for the reason it failed (`Redone`). One thing can change: a handle that no node had
may have got one. -/

namespace AheadOfTime

variable {β : Type}

/-- What a backend says of a method does not depend on its state. -/
def Backend.Steady (b : Backend β) : Prop :=
  ∀ w cs m s s', (b.compile w cs m s).1 = (b.compile w cs m s').1

theorem Script.steady_backend (scripts : List (MethodId × Script)) :
    (backend scripts).Steady :=
  fun _ _ _ _ _ => rfl

namespace Program

variable {α γ : Type} {p : Program β} {s t : Store β} {n : NodeId}

/-- What work came to, and what it comes to on a store when it is done again. A failure may call the
backend again. -/
inductive Redoes (t : Store β) :
    Except NodeError α × Store β → Except NodeError α × Store β → Prop where
  | ok (a : α) (s' : Store β) : Redoes t (.ok a, s') (.ok a, t)
  | error (e : NodeError) (s' : Store β) (b : β) :
      Redoes t (.error e, s') (.error e, { t with backend := b })

theorem Redoes.of_eq {r r' : Except NodeError α × Store β} (h : r' = (r.1, t)) :
    Redoes t r r' := by
  obtain ⟨e | a, s'⟩ := r <;> subst h
  · exact .error e s' t.backend
  · exact .ok a s'

/-- Work `y` on a store does what `x` has done on another, if the store has grown from what `x`
left. -/
structure Redone (p : Program β) (t s : Store β) (x y : Work β α) : Prop where
  steps : p.Steps s (x.run s).2
  again : (x.run s).2.Grows t → Redoes t (x.run s) (y.run t)

theorem Redone.pure (a : α) : p.Redone t s (pure a) (pure a) :=
  ⟨.refl, fun _ => .ok a s⟩

theorem Redone.bind {x y : Work β α} {f g : α → Work β γ} (hx : p.Redone t s x y)
    (hf : ∀ a s', x.run s = (.ok a, s') → p.Redone t s' (f a) (g a)) :
    p.Redone t s (x >>= f) (y >>= g) := by
  obtain ⟨hsteps, hagain⟩ := hx
  rcases hrun : x.run s with ⟨e | a, s'⟩ <;> rw [hrun] at hsteps hagain
  · have hfirst : (x >>= f).run s = (.error e, s') := by rw [run_bind, hrun]
    refine ⟨by rwa [hfirst], fun hg => ?_⟩
    rw [hfirst] at hg ⊢
    have hy := hagain hg
    generalize hr : y.run t = r at hy
    cases hy with
    | error _ _ b =>
      rw [run_bind, hr]
      exact .error e s' b
  · obtain ⟨hsteps', hagain'⟩ := hf a s' hrun
    have hfirst : (x >>= f).run s = (f a).run s' := by rw [run_bind, hrun]
    refine ⟨by rw [hfirst]; exact hsteps.trans hsteps', fun hg => ?_⟩
    rw [hfirst] at hg ⊢
    have hy := hagain ((Steps.grows hsteps').trans hg)
    generalize hr : y.run t = r at hy
    cases hy with
    | ok =>
      rw [run_bind, hr]
      exact hagain' hg

theorem Redone.mapM {f : α → Work β γ} {xs : List α}
    (hf : ∀ x ∈ xs, ∀ s', p.Steps s s' → p.Redone t s' (f x) (f x)) :
    p.Redone t s (xs.mapM f) (xs.mapM f) := by
  induction xs generalizing s with
  | nil => exact .pure []
  | cons x xs ih =>
    rw [List.mapM_cons]
    have hfirst := hf x List.mem_cons_self s .refl
    refine hfirst.bind fun y s₁ hrun => ?_
    have hsteps : p.Steps s s₁ := by
      have := hfirst.steps
      rwa [hrun] at this
    have hrest : p.Redone t s₁ (xs.mapM f) (xs.mapM f) :=
      ih fun x hx s' hs' => hf x (List.mem_cons_of_mem _ hx) s' (hsteps.trans hs')
    exact hrest.bind fun ys s₂ _ => .pure _

/-- A node that asks goes by the same name later. -/
theorem keyError_eq (hg : s.Grows t) {requestedBy : Option NodeId}
    (hby : ∀ m, requestedBy = some m → m ∈ existing s) (k : Key) (fault : KeyFault) :
    p.keyError t k requestedBy fault = p.keyError s k requestedBy fault := by
  cases requestedBy with
  | none => rfl
  | some m => simp only [keyError, Option.map_some, hg.name_eq (hby m rfl)]

theorem Settled.agrees_iff (hs : p.Settled s) (hg : s.Grows t) {k : Key} (hk : s.lookup k = some n)
    (data : Option Blob) : t.agrees n data = s.agrees n data := by
  obtain ⟨node, hn, -⟩ := (hs.sound.lookup_iff k n).mp hk
  obtain ⟨body, hn', -⟩ := hg.nodes n node hn
  cases data with
  | none => rfl
  | some data => simp [Store.agrees, hn, hn']

theorem Settled.exists_of_lookup (hs : p.Settled s) {k : Key} (hk : s.lookup k ≠ none) :
    ∃ m node, s.node? m = some node ∧ node.key = k := by
  obtain ⟨m, hm⟩ := Option.ne_none_iff_exists'.mp hk
  exact ⟨m, (hs.sound.lookup_iff k m).mp hm⟩

/-- Nothing can be added to a full arena. -/
theorem Settled.full (hs : p.Settled s) (ht : p.Settled t) (hg : s.Grows t)
    (hfull : ¬ s.size < 0x100000000) {k : Key} (hk : s.lookup k = none) :
    t.lookup k = none ∧ ¬ t.size < 0x100000000 := by
  have hexists (m : NodeId) : ∃ node, s.node? m = some node :=
    ⟨_, Array.getElem?_eq_getElem (Nat.lt_of_lt_of_le m.index_lt (Nat.le_of_not_lt hfull))⟩
  constructor
  · by_contra hne
    obtain ⟨m, node', hnode', hkey'⟩ := ht.exists_of_lookup hne
    obtain ⟨node, hnode⟩ := hexists m
    obtain ⟨body, hlater, -⟩ := hg.nodes m node hnode
    rw [hlater] at hnode'
    cases hnode'
    rw [(hs.sound.lookup_iff k m).mpr ⟨node, hnode, hkey'⟩] at hk
    cases hk
  · intro hlt
    obtain ⟨node, hnode⟩ := hexists ⟨t.size, hlt⟩
    obtain ⟨body, hlater, -⟩ := hg.nodes _ node hnode
    exact Nat.lt_irrefl _ (Array.getElem?_eq_some_iff.mp hlater).1

theorem obtain_faulty {k : Key} {data : Option Blob} {fault : KeyFault} (hk : s.lookup k = none)
    (hname : p.world.nodeSymbol data.isSome k = .error fault) (requestedBy : Option NodeId) :
    (p.obtain k data requestedBy).run s = (.error (p.keyError s k requestedBy fault), s) := by
  show p.obtain k data requestedBy s = _
  rw [obtain, ExceptT.mk, hk]
  dsimp only
  rw [hname]

theorem obtain_full {k : Key} {data : Option Blob} {name : String} (hk : s.lookup k = none)
    (hname : p.world.nodeSymbol data.isSome k = .ok name) (hfull : ¬ s.size < 0x100000000)
    (requestedBy : Option NodeId) :
    (p.obtain k data requestedBy).run s = (.error (p.keyError s k requestedBy .arenaFull), s) := by
  have hid : NodeId.ofIndex? s.nodes.size = none := dif_neg hfull
  show p.obtain k data requestedBy s = _
  rw [obtain, ExceptT.mk, hk]
  dsimp only
  rw [hname]
  dsimp only
  rw [Store.add, hid]
  rfl

/-- A request that is made again is answered as it was. -/
theorem obtain_again (hs : p.Settled s) (ht : p.Settled t) {k : Key} {data : Option Blob}
    {requestedBy : Option NodeId} (hblob : ∀ name, k = .dataBlob name → data.isSome)
    (hby : ∀ m, requestedBy = some m → m ∈ existing s)
    (hg : ((p.obtain k data requestedBy).run s).2.Grows t) :
    (p.obtain k data requestedBy).run t = (((p.obtain k data requestedBy).run s).1, t) := by
  have hgrows := (Creates.grows (obtain_does k data requestedBy s).steps).trans hg
  have herror := keyError_eq (p := p) hgrows hby k
  cases hk : s.lookup k with
  | some n =>
    rw [obtain_existing hk, obtain_existing (hgrows.lookup k n hk), hs.agrees_iff hgrows hk, herror]
    split <;> rfl
  | none =>
    cases hname : p.world.nodeSymbol data.isSome k with
    | error fault =>
      have hk' : t.lookup k = none := by
        by_contra hne
        obtain ⟨m, node, hnode, hkey⟩ := ht.exists_of_lookup hne
        rw [(ht.sound.guide ht.size_le).nodeSymbol_eq hnode hkey hblob] at hname
        cases hname
      rw [obtain_faulty hk hname, obtain_faulty hk' hname, herror]
    | ok name =>
      by_cases hroom : s.size < 0x100000000
      · obtain ⟨hmade, hagrees⟩ := (obtain_does k data requestedBy s).of_run
          (obtain_missing hk hname hroom requestedBy) |>.2
        rw [obtain_missing hk hname hroom] at hg ⊢
        rw [obtain_existing (hg.lookup k _ hmade), if_pos (hg.agrees hagrees)]
      · obtain ⟨hk', hfull⟩ := hs.full ht hgrows hroom hk
        rw [obtain_full hk hname hroom, obtain_full hk' hname hfull, herror]

theorem resolve_again (hs : p.Settled s) (ht : p.Settled t) (requestedBy : Option NodeId)
    (hby : ∀ m, requestedBy = some m → m ∈ existing s) (r : Request)
    (hg : ((p.resolve requestedBy r).run s).2.Grows t) :
    (p.resolve requestedBy r).run t = (((p.resolve requestedBy r).run s).1, t) :=
  obtain_again hs ht (fun _ hname => isSome_data_of_key (p := p) hname) hby hg

theorem resolve_redone (hs : p.Settled s) (ht : p.Settled t) (hn : n ∈ existing s) (r : Request) :
    p.Redone t s (p.resolve (some n) r) (p.resolve (some n) r) :=
  ⟨Creates.steps (resolve_does _ _ s).steps, fun hg =>
    .of_eq (resolve_again hs ht (some n) (fun _ hm => Option.some.inj hm ▸ hn) r hg)⟩

theorem mapM_edge_redone (hs : p.Settled s) (ht : p.Settled t) (hn : n ∈ existing s)
    (rs : List Reference) : p.Redone t s (rs.mapM (p.edge n)) (rs.mapM (p.edge n)) := by
  refine .mapM fun r _ s' hsteps => ?_
  have hn' := existing_mono (Steps.grows hsteps) hn
  exact (resolve_redone (hs.steps hsteps) ht hn' r.target).bind fun _ _ _ => .pure _

theorem mapM_overrideEdge_redone (hs : p.Settled s) (ht : p.Settled t) (hn : n ∈ existing s)
    (os : List Override) :
    p.Redone t s (os.mapM (p.overrideEdge n)) (os.mapM (p.overrideEdge n)) := by
  refine .mapM fun o _ s' hsteps => ?_
  have hs' := hs.steps hsteps
  have hn' := existing_mono (Steps.grows hsteps) hn
  refine (resolve_redone hs' ht hn' _).bind fun condition s₁ hrun => ?_
  have hmade := Creates.steps ((resolve_does _ _ s').of_run hrun).1
  have hn₁ := existing_mono (Steps.grows hmade) hn'
  exact (resolve_redone (hs'.steps hmade) ht hn₁ _).bind fun _ _ _ => .pure _

/-- Only the backend can keep a node from having a body. -/
theorem body_fails {node : Node} {m : MethodId} {e : NodeError} {s' : Store β}
    (h : (p.body n node m).run s = (.error e, s')) :
    node.body = none ∧ ∃ cause b, e = .codegen node.name cause ∧
      p.backend.compile p.world p.settings m s.backend = (.error cause, b) := by
  unfold body at h
  split at h
  · cases h
  · rename_i hbody
    rw [run_bind, runBackend, ExceptT.run_mk] at h
    rcases hb : p.backend.compile p.world p.settings m s.backend with ⟨cause | body, b⟩
    · rw [hb] at h
      cases h
      exact ⟨hbody, cause, b, rfl, rfl⟩
    · rw [hb] at h
      cases h

variable {node : Node} {body : Option MethodBody}

theorem body_redone (hsteady : p.backend.Steady) (ht : p.Settled t) {m : MethodId}
    (hn : s.node? n = some node) (hkey : node.key = .methodEntrypoint m)
    (hn' : t.node? n = some { node with body := body }) :
    p.Redone t s (p.body n node m) (p.body n { node with body := body } m) := by
  refine ⟨(body_does hn hkey).steps, fun hg => ?_⟩
  rcases hrun : (p.body n node m).run s with ⟨e | found, s'⟩
  · obtain ⟨-, cause, b, rfl, hb⟩ := body_fails hrun
    have hagain (b' : β) := hsteady p.world p.settings m s.backend b'
    rw [hb] at hagain
    cases body with
    | some body =>
      obtain ⟨m', b₁, b₂, hkey', hb'⟩ := ht.sound.compiled n _ body hn' rfl
      obtain rfl : m = m' := by
        rw [hkey] at hkey'
        cases hkey'
        rfl
      have := hagain b₁
      rw [hb'] at this
      cases this
    | none =>
      rcases hb' : p.backend.compile p.world p.settings m t.backend with ⟨answer, b'⟩
      obtain rfl : Except.error cause = answer := by
        have := hagain t.backend
        rwa [hb'] at this
      have hrun' : (p.body n { node with body := none } m).run t =
          (.error (.codegen node.name cause), { t with backend := b' }) := by
        show ((p.runBackend node.name m >>= _).run t) = _
        rw [run_bind, runBackend, ExceptT.run_mk, hb']
      rw [hrun']
      exact .error _ _ b'
  · have hmade := ((body_does hn hkey).of_run hrun).2
    rw [hrun] at hg
    obtain ⟨later, hlater, hbody⟩ := hg.nodes n _ hmade
    rw [hlater] at hn'
    cases hn'
    rw [hbody found rfl]
    exact .ok found s'

theorem bodyReferences_redone (hsteady : p.backend.Steady) (ht : p.Settled t)
    (hn : s.node? n = some node) (hn' : t.node? n = some { node with body := body }) :
    p.Redone t s (p.bodyReferences n node) (p.bodyReferences n { node with body := body }) := by
  unfold bodyReferences
  dsimp only
  split
  · rename_i m hkey
    exact (body_redone hsteady ht hn hkey hn').bind fun _ _ _ => .pure _
  · exact .pure []

/-- Work on a node that begins with what the world says of its key. -/
theorem node_ask_run {q : Key → Except WorldError α} {f : Node → α → Work β γ}
    (hn : s.node? n = some node) :
    (Program.node n >>= fun node => p.ask node.key (q node.key) >>= f node).run s =
      match q node.key with
      | .ok a => (f node a).run s
      | .error e => (.error (p.keyError s node.key none (.unknown e)), s) := by
  rw [run_bind, node_run, hn, Option.elim]
  dsimp only
  cases q node.key <;> rfl

/-- When it is done again, the node may have got its body. -/
theorem Redone.ofNode {q : Key → Except WorldError α} {f : Node → α → Work β γ}
    {x : Work β γ} (hx : x = Program.node n >>= fun node => p.ask node.key (q node.key) >>= f node)
    (hn : n ∈ existing s) (hsteps : p.Steps s (x.run s).2)
    (hf : ∀ node body a, s.node? n = some node → t.node? n = some { node with body := body } →
      p.Redone t s (f node a) (f { node with body := body } a)) :
    p.Redone t s x x := by
  subst hx
  refine ⟨hsteps, fun hg => ?_⟩
  obtain ⟨node, hnode⟩ := Option.isSome_iff_exists.mp hn
  obtain ⟨body, hnode', -⟩ := ((Steps.grows hsteps).trans hg).nodes n node hnode
  rw [node_ask_run hnode] at hg ⊢
  rw [node_ask_run hnode']
  dsimp only
  cases hq : q node.key with
  | error e => exact .error _ s t.backend
  | ok a =>
    rw [hq] at hg
    exact (hf node body a hnode hnode').again hg

theorem edges_redone (hsteady : p.backend.Steady) (hs : p.Settled s) (ht : p.Settled t)
    (hn : n ∈ existing s) : p.Redone t s (p.edges n) (p.edges n) := by
  refine .ofNode rfl hn (edges_does n s).steps fun node body own hnode hnode' => ?_
  refine (mapM_edge_redone hs ht hn own).bind fun ownEdges s₁ hrun => ?_
  obtain ⟨hsteps, hmade, -⟩ := (mapM_edge_does own s).of_run hrun
  have hnode₁ := hmade.node? hnode
  refine (bodyReferences_redone hsteady ht hnode₁ hnode').bind fun found s₂ hrun => ?_
  have hsteps' : p.Steps s s₂ := hsteps.trans ((bodyReferences_does hnode₁).of_run hrun).1
  have hn₂ := existing_mono (Steps.grows hsteps') hn
  exact (mapM_edge_redone (hs.steps hsteps') ht hn₂ found).bind fun _ _ _ => .pure _

theorem conditional_redone (hs : p.Settled s) (ht : p.Settled t) (hn : n ∈ existing s) :
    p.Redone t s (p.conditional n) (p.conditional n) :=
  .ofNode rfl hn (conditional_does n s).steps fun _ _ overrides _ _ =>
    mapM_overrideEdge_redone hs ht hn overrides

/-- A question about a node that exists is answered as it was, and fails as it failed. -/
theorem query_redone (hsteady : p.backend.Steady) (hs : p.Settled s) (ht : p.Settled t)
    (hn : n ∈ existing s) (hg : (p.graph.query n s).2.Grows t) :
    Redoes t (p.graph.query n s) (p.graph.query n t) := by
  obtain ⟨hsteps, hagain⟩ := edges_redone hsteady hs ht hn
  unfold Graph.query at hg ⊢
  simp only [graph] at hg ⊢
  rcases hedges : (p.edges n).run s with ⟨e | es, s₁⟩ <;> rw [hedges] at hsteps hagain hg
  · have hredoes := hagain hg
    generalize (p.edges n).run t = r at hredoes
    cases hredoes with
    | error _ _ b => exact .error e s₁ b
  · obtain ⟨hsteps', hagain'⟩ :=
      conditional_redone (hs.steps hsteps) ht (existing_mono (Steps.grows hsteps) hn)
    rcases hconditional : (p.conditional n).run s₁ with ⟨e | ds, s₂⟩ <;>
      rw [hconditional] at hsteps' hagain' <;> simp only [hconditional] at hg
    all_goals
      have hredoes := hagain ((Steps.grows hsteps').trans hg)
      have hredoes' := hagain' hg
      generalize (p.edges n).run t = r at hredoes
      generalize hr : (p.conditional n).run t = r' at hredoes'
      cases hredoes
      cases hredoes'
      simp only [hconditional, hr]
    · exact .error _ _ _
    · exact .ok _ _

/-- Answers are given again while the store grows. -/
theorem graph_repeats (hsteady : p.backend.Steady) :
    p.graph.Repeats p.Settled Store.Grows where
  keeps _ hs n := hs.steps (p.query_steps n _)
  refl := .refl
  trans := .trans
  later s n := (p.query_steps n s).grows
  again {s t n deps s'} hs ht hq hg := by
    have hn : n ∈ existing s := by
      by_contra hn
      rw [query_of_not_existing hn] at hq
      cases hq
    have hredoes := query_redone hsteady hs ht hn (by rwa [hq])
    rw [hq] at hredoes
    generalize p.graph.query n t = r at hredoes
    cases hredoes
    rfl

/-- A question fails again, unless it was about a handle that has got a node since. -/
theorem query_fails_again (hsteady : p.backend.Steady) (hs : p.Settled s) (ht : p.Settled t)
    {cause : NodeError} {s' : Store β} (hq : p.graph.query n s = (.error cause, s'))
    (hg : s'.Grows t) (hn : n ∈ existing s' ∨ n ∉ existing t) :
    ∃ b, p.graph.query n t = (.error cause, { t with backend := b }) := by
  by_cases hexists : n ∈ existing s
  · have hredoes := query_redone hsteady hs ht hexists (by rwa [hq])
    rw [hq] at hredoes
    generalize p.graph.query n t = r at hredoes
    cases hredoes with
    | error _ _ b => exact ⟨b, rfl⟩
  · rw [query_of_not_existing hexists] at hq
    cases hq
    exact ⟨t.backend, query_of_not_existing (hn.resolve_left hexists)⟩

theorem resolveRoots_again (hs : p.Settled s) (ht : p.Settled t) (rs : List Reference)
    (hg : (p.resolveRoots rs s).store.Grows t) :
    p.resolveRoots rs t = { p.resolveRoots rs s with store := t } := by
  induction rs generalizing s with
  | nil => rfl
  | cons r rs ih =>
    have hsteps := Creates.steps (resolve_does (p := p) none r.target s).steps
    have hagain := resolve_again (p := p) hs ht none (by simp) r.target
    rcases hrun : (p.resolve none r.target).run s with ⟨e | n, s₁⟩
    · rw [hrun] at hagain
      simp only [resolveRoots, hrun] at hg ⊢
      rw [hagain hg]
    · rw [hrun] at hsteps hagain
      simp only [resolveRoots, hrun] at hg ⊢
      have hlater := (Creates.grows (resolveRoots_creates (p := p) rs s₁).1).trans hg
      rw [hagain hlater]
      simp only [ih (hs.steps hsteps) hg]

/-- Roots are gathered as they were. -/
theorem gather_again (hs : p.Settled s) (ht : p.Settled t) {sources : List RootSource}
    (hg : (p.gather sources s).store.Grows t) :
    p.gather sources t = { p.gather sources s with store := t } := by
  induction sources generalizing s with
  | nil => rfl
  | cons source sources ih =>
    have hsteps := Creates.steps (resolveRoots_creates (p := p) (source.references p.world) s).1
    have hagain := resolveRoots_again (p := p) hs ht (source.references p.world)
    cases herror : (p.resolveRoots (source.references p.world) s).error with
    | some e =>
      simp only [gather, provide, herror] at hg ⊢
      simp only [hagain hg, herror]
    | none =>
      simp only [gather, provide, herror] at hg ⊢
      have hlater := (Creates.grows (gather_creates (p := p) sources _)).trans hg
      simp only [hagain hlater, herror, ih (hs.steps hsteps) hg]

end Program

end AheadOfTime
