import AheadOfTime.Proofs.Marking.Moves
import AheadOfTime.Proofs.Node.Steps
import Mathlib.Data.List.Forall2

/-! What a program answers about its nodes. Each piece of work has one lemma that says by which
steps it changes the store and what holds if it gives a result (`Does`). An answer can be read off
the store it leaves: edges lead to the nodes of the keys that the references of the node are bound
to. As stores only grow, it can be read off every later store as well (`graph_answers`). -/

namespace AheadOfTime

namespace Program

variable {β α γ : Type} {p : Program β} {s s' : Store β} {T : Store β → Store β → Prop}

/-- Work changes a store by steps alone, and what it gives, if it does, is as stated. -/
structure Does (T : Store β → Store β → Prop) (s : Store β) (x : Work β α)
    (Q : α → Store β → Prop) : Prop where
  steps : Relation.ReflTransGen T s (x.run s).2
  gives : ∀ {a}, (x.run s).1 = .ok a → Q a (x.run s).2

theorem run_bind (x : Work β α) (f : α → Work β γ) (s : Store β) :
    (x >>= f).run s = match x.run s with
      | (.ok a, s') => (f a).run s'
      | (.error e, s') => (.error e, s') := by
  show (ExceptT.bindCont f (x.run s).1) (x.run s).2 = _
  rcases x.run s with ⟨a | e, s'⟩ <;> rfl

theorem Does.of_run {x : Work β α} {Q : α → Store β → Prop} {a : α} (hx : Does T s x Q)
    (hrun : x.run s = (.ok a, s')) : Relation.ReflTransGen T s s' ∧ Q a s' := by
  have hsteps := hx.steps
  have hgives := @hx.gives a
  rw [hrun] at hsteps hgives
  exact ⟨hsteps, hgives rfl⟩

theorem Does.pure {a : α} {Q : α → Store β → Prop} (h : Q a s) : Does T s (pure a) Q :=
  ⟨.refl, fun ha => by cases ha; exact h⟩

theorem Does.bind {x : Work β α} {f : α → Work β γ} {Q : α → Store β → Prop}
    {R : γ → Store β → Prop} (hx : Does T s x Q)
    (hf : ∀ a s', Relation.ReflTransGen T s s' → Q a s' → Does T s' (f a) R) :
    Does T s (x >>= f) R := by
  have hsteps := hx.steps
  have hgives := @hx.gives
  constructor
  · rw [run_bind]
    split
    · rename_i a s' hrun
      rw [hrun] at hsteps hgives
      exact hsteps.trans (hf a s' hsteps (hgives rfl)).steps
    · rename_i hrun
      rwa [hrun] at hsteps
  · intro c
    rw [run_bind]
    split
    · rename_i a s' hrun
      rw [hrun] at hsteps hgives
      exact (hf a s' hsteps (hgives rfl)).gives
    · rintro ⟨⟩

theorem Does.mono {x : Work β α} {Q R : α → Store β → Prop} (hx : Does T s x Q)
    (hQR : ∀ a s', Q a s' → R a s') : Does T s x R :=
  ⟨hx.steps, fun ha => hQR _ _ (hx.gives ha)⟩

/-- What a list of pieces of work gives is as stated of each, if no later step changes that. -/
theorem Does.mapM {f : α → Work β γ} {P : α → γ → Store β → Prop}
    (hf : ∀ x s, Does T s (f x) (P x)) (hP : ∀ {x y s s'}, T s s' → P x y s → P x y s')
    (xs : List α) (s : Store β) :
    Does T s (xs.mapM f) fun ys s' => List.Forall₂ (P · · s') xs ys := by
  induction xs generalizing s with
  | nil => exact .pure .nil
  | cons x xs ih =>
    have hlast {x y s s'} (h : Relation.ReflTransGen T s s') (hy : P x y s) : P x y s' := by
      induction h with
      | refl => exact hy
      | tail _ ht ih => exact hP ht ih
    rw [List.mapM_cons]
    refine (hf x s).bind fun y s₁ _ hy => (ih s₁).bind fun ys s₂ hsteps hys => ?_
    exact .pure (.cons (hlast hsteps hy) hys)

/-- The node is there, or there can be none, or it is made. -/
theorem obtain_cases (p : Program β) (k : Key) (data : Option Blob) (requestedBy : Option NodeId)
    (s : Store β) :
    (∃ n, s.lookup k = some n ∧ s.agrees n data ∧
      (p.obtain k data requestedBy).run s = (.ok n, s)) ∨
    (∃ fault, (p.obtain k data requestedBy).run s =
      (.error (p.keyError s k requestedBy fault), s)) ∨
    ∃ n name, s.lookup k = none ∧ n.index = s.size ∧
      p.world.nodeSymbol data.isSome k = .ok name ∧
      (p.obtain k data requestedBy).run s = (.ok n, s.push n ⟨k, name, data, none⟩) := by
  have hrun : (p.obtain k data requestedBy).run s = p.obtain k data requestedBy s := rfl
  rw [hrun, obtain, ExceptT.mk]
  cases hk : s.lookup k with
  | some n =>
    by_cases hdata : s.agrees n data
    · exact .inl ⟨n, rfl, hdata, if_pos hdata⟩
    · exact .inr (.inl ⟨.otherContents, if_neg hdata⟩)
  | none =>
    cases hname : p.world.nodeSymbol data.isSome k with
    | error fault => exact .inr (.inl ⟨fault, rfl⟩)
    | ok name =>
      dsimp only
      cases hadd : s.add ⟨k, name, data, none⟩ with
      | none => exact .inr (.inl ⟨.arenaFull, rfl⟩)
      | some r =>
        obtain ⟨n, s'⟩ := r
        obtain ⟨hn, rfl⟩ := Store.add_eq_some hadd
        exact .inr (.inr ⟨n, name, rfl, hn, rfl, rfl⟩)

theorem obtain_does (k : Key) (data : Option Blob) (requestedBy : Option NodeId) (s : Store β) :
    Does p.Create s (p.obtain k data requestedBy) fun n s' =>
      s'.lookup k = some n ∧ s'.agrees n data := by
  rcases p.obtain_cases k data requestedBy s with
    ⟨n, hk, hdata, hrun⟩ | ⟨fault, hrun⟩ | ⟨n, name, hk, hn, hname, hrun⟩
  · exact ⟨by rw [hrun], fun ha => by rw [hrun] at ha ⊢; cases ha; exact ⟨hk, hdata⟩⟩
  · exact ⟨by rw [hrun], fun ha => by rw [hrun] at ha; cases ha⟩
  · refine ⟨by rw [hrun]; exact .single (.node hk hn hname), fun ha => ?_⟩
    rw [hrun] at ha ⊢
    cases ha
    refine ⟨by rw [Store.lookup_push, if_pos rfl], ?_⟩
    cases data <;> simp [Store.agrees, Store.node?_push_self hn]

/-- The key that a request is bound to. -/
def key (p : Program β) (r : Request) : Key := p.unit.bind p.world r

/-- A node has the key that a request is bound to, and the contents that the request brings. -/
structure Serves (p : Program β) (r : Request) (n : NodeId) (s : Store β) : Prop where
  lookup : s.lookup (p.key r) = some n
  agrees : s.agrees n r.data

theorem Serves.grows {r : Request} {n : NodeId} (hg : s.Grows s') (h : p.Serves r n s) :
    p.Serves r n s' :=
  ⟨hg.lookup _ _ h.lookup, hg.agrees h.agrees⟩

theorem resolve_does (requestedBy : Option NodeId) (r : Request) (s : Store β) :
    Does p.Create s (p.resolve requestedBy r) (p.Serves r) :=
  (obtain_does _ _ _ s).mono fun _ _ h => ⟨h.1, h.2⟩

/-- An edge leads where its reference is bound to. -/
structure EdgeFor (p : Program β) (r : Reference) (e : Edge) (s : Store β) : Prop where
  serves : p.Serves r.target e.target s
  reason : e.reason = r.reason

theorem edge_does (n : NodeId) (r : Reference) (s : Store β) :
    Does p.Create s (p.edge n r) (p.EdgeFor r) :=
  (resolve_does _ _ s).bind fun _ _ _ hn => .pure ⟨hn, rfl⟩

structure OverrideFor (p : Program β) (o : Override) (e : ConditionalEdge) (s : Store β) : Prop where
  condition : s.lookup (.virtualMethodUse o.declaration) = some e.condition
  target : s.lookup (p.key (.methodEntrypoint o.implementation)) = some e.target
  reason : e.reason = "virtual override"

theorem Creates.grows (h : p.Creates s s') : s.Grows s' := h.steps.grows

theorem overrideEdge_does (n : NodeId) (o : Override) (s : Store β) :
    Does p.Create s (p.overrideEdge n o) (p.OverrideFor o) := by
  refine (resolve_does _ _ s).bind fun condition s₁ _ hcondition => ?_
  refine (resolve_does _ _ s₁).bind fun target s₂ hsteps htarget => ?_
  exact .pure ⟨(hcondition.grows (Creates.grows hsteps)).lookup, htarget.lookup, rfl⟩

theorem EdgeFor.grows {r : Reference} {e : Edge} (hg : s.Grows s') (h : p.EdgeFor r e s) :
    p.EdgeFor r e s' :=
  ⟨h.serves.grows hg, h.reason⟩

theorem OverrideFor.grows {o : Override} {e : ConditionalEdge} (hg : s.Grows s')
    (h : p.OverrideFor o e s) : p.OverrideFor o e s' :=
  ⟨hg.lookup _ _ h.condition, hg.lookup _ _ h.target, h.reason⟩

theorem node_run (n : NodeId) (s : Store β) : (Program.node n).run s =
    ((s.node? n).elim (.error (.unresolved n.label none .foreignNode)) .ok, s) := by
  have hget : (get : Work β (Store β)).run s = (.ok s, s) := rfl
  rw [Program.node, run_bind, hget]
  dsimp only
  cases s.node? n <;> rfl

theorem node_does (n : NodeId) (s : Store β) :
    Does T s (Program.node n) fun node s' => s' = s ∧ s.node? n = some node := by
  refine ⟨by rw [node_run], fun ha => ?_⟩
  rw [node_run] at ha ⊢
  cases hn : s.node? n with
  | none => rw [hn] at ha; cases ha
  | some node =>
    rw [hn] at ha
    cases ha
    exact ⟨rfl, rfl⟩

theorem ask_does (k : Key) (r : Except WorldError α) (s : Store β) :
    Does T s (p.ask k r) fun a s' => s' = s ∧ r = .ok a := by
  cases r with
  | ok a => exact .pure ⟨rfl, rfl⟩
  | error e => exact ⟨.refl, fun ha => by cases ha⟩

/-- Work that makes nodes and does nothing else. -/
theorem Does.ofCreates {x : Work β α} {Q : α → Store β → Prop} (h : Does p.Create s x Q) :
    Does p.Step s x fun a s' => p.Creates s s' ∧ Q a s' :=
  ⟨Creates.steps h.steps, fun ha => ⟨h.steps, h.gives ha⟩⟩

/-- The body is that of the node, which is compiled for it if it has none. -/
theorem body_does {n : NodeId} {node : Node} {m : MethodId} (hn : s.node? n = some node)
    (hkey : node.key = .methodEntrypoint m) :
    Does p.Step s (p.body n node m) fun body s' =>
      s'.node? n = some { node with body := some body } := by
  unfold body
  cases hbody : node.body with
  | some b =>
    refine .pure ?_
    rw [hn, ← hbody]
  | none =>
    rcases hb : p.backend.compile p.world p.settings m s.backend with ⟨cause | body, b⟩
    · have hrun : (p.runBackend node.name m).run s =
          (.error (.codegen node.name cause), { s with backend := b }) := by
        rw [runBackend, ExceptT.run_mk, hb]
      constructor <;> rw [run_bind, hrun]
      · exact .single (.fail hn hkey hbody hb)
      · rintro _ ⟨⟩
    · have hrun : (p.runBackend node.name m).run s = (.ok body, { s with backend := b }) := by
        rw [runBackend, ExceptT.run_mk, hb]
      constructor <;> rw [run_bind, hrun]
      · exact .single (.compile hn hkey hbody hb)
      · rintro _ ⟨⟩
        show Store.node? (Store.setBody { s with backend := b } n body) n = _
        rw [Store.node?_setBody]
        show (s.node? n).map _ = _
        rw [hn]
        simp

end Program

/-- The references that the body of a node adds to those of its key. -/
def Node.found (node : Node) : List Reference :=
  match node.key, node.body with
  | .methodEntrypoint _, some body => body.references
  | _, _ => []

/-- A node of a method has its body; others need none. -/
def Node.Ready (node : Node) : Prop := ∀ m, node.key = .methodEntrypoint m → node.body.isSome

namespace Program

variable {β : Type} {p : Program β} {s s' : Store β} {n : NodeId}

theorem bodyReferences_does {node : Node} (hn : s.node? n = some node) :
    Does p.Step s (p.bodyReferences n node) fun found s' =>
      ∃ node', s'.node? n = some node' ∧ node'.key = node.key ∧ node'.Ready ∧ found = node'.found := by
  unfold bodyReferences
  split
  · rename_i m hkey
    refine (body_does hn hkey).bind fun body s₁ _ hn₁ => .pure ⟨_, hn₁, rfl, fun _ _ => rfl, ?_⟩
    simp [Node.found, hkey]
  · rename_i hkey
    refine .pure ⟨node, hn, rfl, fun m hm => absurd hm (hkey m), ?_⟩
    unfold Node.found
    split
    · rename_i m _ hm _
      exact absurd hm (hkey m)
    · rfl

/-- Edges that can be read off a store: one for each reference of the key of a node and then one
for each reference of its body. -/
def EdgesFrom (p : Program β) (s : Store β) (n : NodeId) (es : List Edge) : Prop :=
  ∃ node own, s.node? n = some node ∧ p.world.references node.key = .ok own ∧ node.Ready ∧
    List.Forall₂ (p.EdgeFor · · s) (own ++ node.found) es

def ConditionalFrom (p : Program β) (s : Store β) (n : NodeId) (es : List ConditionalEdge) : Prop :=
  ∃ node overrides, s.node? n = some node ∧ p.world.overridesOf node.key = .ok overrides ∧
    List.Forall₂ (p.OverrideFor · · s) overrides es

structure Answered (p : Program β) (s : Store β) (n : NodeId) (deps : Dependencies) : Prop where
  edges : p.EdgesFrom s n deps.edges
  conditional : p.ConditionalFrom s n deps.conditional

theorem mapM_edge_does (rs : List Reference) (s : Store β) :
    Does p.Step s (rs.mapM (p.edge n)) fun es s' =>
      p.Creates s s' ∧ List.Forall₂ (p.EdgeFor · · s') rs es :=
  (Does.mapM (edge_does n) (fun h => EdgeFor.grows (Step.create h).grows) rs s).ofCreates

theorem edges_does (n : NodeId) (s : Store β) :
    Does p.Step s (p.edges n) fun es s' => p.EdgesFrom s' n es := by
  refine (node_does n s).bind fun node _ _ ⟨hs, hn⟩ => ?_
  subst hs
  refine (ask_does _ _ _).bind fun own _ _ ⟨hs, hown⟩ => ?_
  subst hs
  refine (mapM_edge_does own _).bind fun ownEdges s₁ _ ⟨hmade, hownEdges⟩ => ?_
  refine (bodyReferences_does (hmade.node? hn)).bind fun found s₂ hsteps hbody => ?_
  obtain ⟨node', hn₂, hkey, hready, rfl⟩ := hbody
  refine (mapM_edge_does node'.found s₂).bind fun foundEdges s₃ _ ⟨hmade₃, hfoundEdges⟩ => ?_
  have hgrows : s₁.Grows s₃ := (Steps.grows hsteps).trans hmade₃.grows
  have hall : List.Forall₂ (p.EdgeFor · · s₃) (own ++ node'.found) (ownEdges ++ foundEdges) :=
    List.rel_append (hownEdges.imp fun _ _ h => h.grows hgrows) hfoundEdges
  exact .pure ⟨node', own, hmade₃.node? hn₂, hkey ▸ hown, hready, hall⟩

theorem conditional_does (n : NodeId) (s : Store β) :
    Does p.Step s (p.conditional n) fun es s' => p.ConditionalFrom s' n es := by
  refine (node_does n s).bind fun node s₁ _ ⟨hs, hn⟩ => ?_
  subst hs
  refine (ask_does _ _ s₁).bind fun overrides s₂ _ ⟨hs, hoverrides⟩ => ?_
  subst hs
  have hmap := Does.mapM (overrideEdge_does (p := p) n)
    (fun h => OverrideFor.grows (Step.create h).grows) overrides s₂
  refine hmap.ofCreates.mono fun es s' ⟨hmade, hes⟩ => ?_
  exact ⟨node, overrides, hmade.node? hn, hoverrides, hes⟩

theorem EdgesFrom.grows {es : List Edge} (hg : s.Grows s') (h : p.EdgesFrom s n es) :
    p.EdgesFrom s' n es := by
  obtain ⟨node, own, hn, hown, hready, hes⟩ := h
  obtain ⟨body, hn', hbody⟩ := hg.nodes n node hn
  refine ⟨_, own, hn', hown, fun m hm => ?_, ?_⟩
  · obtain ⟨b, hb⟩ := Option.isSome_iff_exists.mp (hready m hm)
    exact Option.isSome_iff_exists.mpr ⟨b, hbody b hb⟩
  · have hfound : Node.found { node with body := body } = node.found := by
      unfold Node.found
      cases hkey : node.key with
      | methodEntrypoint m =>
        obtain ⟨b, hb⟩ := Option.isSome_iff_exists.mp (hready m hkey)
        rw [hbody b hb, hb]
      | _ => rfl
    rw [hfound]
    exact hes.imp fun _ _ h => h.grows hg

theorem ConditionalFrom.grows {es : List ConditionalEdge} (hg : s.Grows s')
    (h : p.ConditionalFrom s n es) : p.ConditionalFrom s' n es := by
  obtain ⟨node, overrides, hn, hoverrides, hes⟩ := h
  obtain ⟨body, hn', -⟩ := hg.nodes n node hn
  exact ⟨_, overrides, hn', hoverrides, hes.imp fun _ _ h => h.grows hg⟩

theorem Answered.grows {deps : Dependencies} (hg : s.Grows s') (h : p.Answered s n deps) :
    p.Answered s' n deps :=
  ⟨h.edges.grows hg, h.conditional.grows hg⟩

/-- Both questions about a node as one piece of work. -/
theorem query_eq_run (p : Program β) (n : NodeId) (s : Store β) :
    p.graph.query n s = (p.edges n >>= fun edges => p.conditional n >>= fun conditional =>
      (pure ⟨edges, conditional⟩ : Work β Dependencies)).run s := by
  have hedges : p.graph.edges n s = (p.edges n).run s := rfl
  rw [run_bind, Graph.query, hedges]
  rcases (p.edges n).run s with ⟨e | edges, s₁⟩
  · rfl
  · have hconditional : p.graph.conditional n s₁ = (p.conditional n).run s₁ := rfl
    dsimp only
    rw [run_bind, hconditional]
    rcases (p.conditional n).run s₁ with ⟨e | conditional, s₂⟩ <;> rfl

/-- Asking about a handle without a node fails and does nothing. -/
theorem query_of_not_exists (hn : s.node? n = none) :
    p.graph.query n s = (.error (.unresolved n.label none .foreignNode), s) := by
  have hedges : (p.edges n).run s = (.error (.unresolved n.label none .foreignNode), s) := by
    rw [edges, run_bind, node_run, hn]
    rfl
  rw [query_eq_run, run_bind, hedges]

theorem query_steps (p : Program β) (n : NodeId) (s : Store β) :
    p.Steps s (p.graph.query n s).2 := by
  have hedges := (edges_does (p := p) n s).steps
  unfold Graph.query
  split
  · rename_i e s₁ hq
    rwa [show (p.edges n).run s = (.error e, s₁) from hq] at hedges
  · rename_i es s₁ hq
    rw [show (p.edges n).run s = (.ok es, s₁) from hq] at hedges
    have hconditional := (conditional_does (p := p) n s₁).steps
    split <;> rename_i hq'
    · exact hedges.trans ((congrArg (p.Steps s₁ ·.2) hq').mp hconditional)
    · exact hedges.trans ((congrArg (p.Steps s₁ ·.2) hq').mp hconditional)

theorem answered_query {deps : Dependencies} (hq : (p.graph.query n s).1 = .ok deps) :
    p.Answered (p.graph.query n s).2 n deps := by
  have hedges := @(edges_does (p := p) n s).gives
  unfold Graph.query at hq ⊢
  split at hq
  · cases hq
  rename_i es s₁ hrun
  rw [show (p.edges n).run s = (.ok es, s₁) from hrun] at hedges
  have hconditional := @(conditional_does (p := p) n s₁).gives
  have hsteps := (conditional_does (p := p) n s₁).steps
  split at hq
  · cases hq
  rename_i ds s₂ hrun'
  rw [show (p.conditional n).run s₁ = (.ok ds, s₂) from hrun'] at hconditional hsteps
  cases hq
  exact ⟨(hedges rfl).grows (Steps.grows hsteps), hconditional rfl⟩

/-- Answers stay what they are while the store grows. -/
theorem graph_answers (p : Program β) : p.graph.Answers p.Sound fun s n a =>
    ∀ deps, a = .ok deps → p.Answered s n deps where
  keeps _ hs n := hs.steps (p.query_steps n _)
  gives _ _ _ hq := answered_query hq
  lasts _ ha n deps hdeps := (ha deps hdeps).grows (p.query_steps n _).grows

end Program

end AheadOfTime
