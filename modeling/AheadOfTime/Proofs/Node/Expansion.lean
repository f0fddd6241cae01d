import AheadOfTime.Proofs.Node.Repeated
import AheadOfTime.Proofs.Node.Reworded
import AheadOfTime.Proofs.Symbol.Accepted

/-! Why a question about a node that exists fails. The node has passed the check of its key, so all
that it leads to is there. What can be in the way is that the arena is full, that something it
mentions is open, or that a method has no body, or one with a reference to what can have no node
(`Stuck`). Each piece of work has one lemma that says which of these it can fail for (`Blames`). -/

namespace AheadOfTime

variable {β : Type}

theorem Request.data_of_has {w : World} {r : Request} (h : w.Has r.entity) : r.data = none := by
  cases r with
  | dataBlob name data => exact h.elim
  | _ => rfl

namespace World

variable {w : World} {k : Key} {hasData : Bool} {name : String}

/-- A key that may have a node is of something that can be asked for its references. -/
theorem exists_references (h : w.nodeSymbol hasData k = .ok name) :
    ∃ own, w.references k = .ok own := by
  have hmethod {m : MethodId} (hm : w.Has (.method m)) : ∃ info, w.methodInfo m = .ok info :=
    exists_methodInfo.mpr hm
  have htype {t : TypeId} (ht : w.Has (.type t)) : ∃ info, w.typeInfo t = .ok info :=
    exists_typeInfo.mpr ht
  cases k with
  | methodEntrypoint m | virtualMethodUse m | methodDictionary m =>
    obtain ⟨info, hinfo⟩ := hmethod (has_of_nodeSymbol h rfl)
    exact ⟨_, by rw [references, hinfo]; rfl⟩
  | typeDescriptor t | typeDictionary t =>
    obtain ⟨info, hinfo⟩ := htype (has_of_nodeSymbol h rfl)
    exact ⟨_, by rw [references, hinfo]; rfl⟩
  | _ => exact ⟨[], rfl⟩

theorem exists_overridesOf (h : w.nodeSymbol hasData k = .ok name) :
    ∃ overrides, w.overridesOf k = .ok overrides := by
  cases k with
  | typeDescriptor t =>
    obtain ⟨info, hinfo⟩ := exists_typeInfo.mpr (has_of_nodeSymbol h rfl)
    exact ⟨_, by rw [overridesOf, hinfo]; rfl⟩
  | _ => exact ⟨[], rfl⟩

end World

namespace Program

variable {α γ : Type} {p : Program β} {s s' : Store β} {n : NodeId} {node : Node}
  {M : Entity → Prop} {e : NodeError}

/-- What a question about a node says when it fails, if `M` holds of all that the key of the node
leads to. -/
inductive Stuck (p : Program β) (M : Entity → Prop) (node : Node) (s : Store β) :
    NodeError → Prop where
  /-- Every handle has a node. -/
  | full (k : Key) (hfull : s.size = 0x100000000) :
    Stuck p M node s (.unresolved (k.describe p.world) (some node.name) .arenaFull)
  | openType {t : TypeId} (ht : M (.type t)) (hopen : p.world.IsOpen (.type t)) :
    Stuck p M node s
      (.unresolved ((p.key (.typeHandle t)).describe p.world) (some node.name) .openType)
  | openMethod {m : MethodId} (hm : M (.method m)) (hopen : p.world.IsOpen (.method m)) :
    Stuck p M node s
      (.unresolved ((p.key (.methodEntrypoint m)).describe p.world) (some node.name) .openMethod)
  | backend {m : MethodId} {b b' : β} {cause : BackendError} (hkey : node.key = .methodEntrypoint m)
    (hb : p.backend.compile p.world p.settings m b = (.error cause, b')) :
    Stuck p M node s (.codegen node.name cause)
  /-- The body of the method refers to something that has no node and can get none. -/
  | reported {m : MethodId} {b b' : β} {body : MethodBody} {r : Reference}
    (hkey : node.key = .methodEntrypoint m)
    (hb : p.backend.compile p.world p.settings m b = (.ok body, b')) (hr : r ∈ body.references)
    (fault : KeyFault) :
    Stuck p M node s (.unresolved ((p.key r.target).describe p.world) (some node.name) fault)

/-- Only the key and the name of the node matter, and whether there are handles left. -/
theorem Stuck.imp {M' : Entity → Prop} {node' : Node} (h : p.Stuck M node s e)
    (hM : ∀ x, M x → M' x) (hkey : node'.key = node.key) (hname : node'.name = node.name)
    (hfull : s.size = 0x100000000 → s'.size = 0x100000000) : p.Stuck M' node' s' e := by
  cases h with
  | full k h => exact hname ▸ .full k (hfull h)
  | openType ht hopen => exact hname ▸ .openType (hM _ ht) hopen
  | openMethod hm hopen => exact hname ▸ .openMethod (hM _ hm) hopen
  | backend h hb => exact hname ▸ .backend (hkey.trans h) hb
  | reported h hb hr fault => exact hname ▸ .reported (hkey.trans h) hb hr fault

theorem Stuck.mono {M' : Entity → Prop} (h : p.Stuck M node s e) (hM : ∀ x, M x → M' x) :
    p.Stuck M' node s e :=
  h.imp hM rfl rfl id

/-- A full arena stays full. -/
theorem Settled.full_later (hs : p.Settled s) (hsteps : p.Steps s s')
    (hfull : s.size = 0x100000000) : s'.size = 0x100000000 := by
  have hle := (Steps.slots hsteps).length_le
  have hgrown : s.size ≤ s'.size := by simpa [Store.slots, Store.size] using hle
  exact Nat.le_antisymm (hs.steps hsteps).size_le (hfull ▸ hgrown)

/-- Work changes a store by steps alone, and fails for the reasons stated. -/
structure Blames (p : Program β) (s : Store β) (x : Work β α) (E : Store β → NodeError → Prop) :
    Prop where
  steps : p.Steps s (x.run s).2
  error : ∀ e, (x.run s).1 = .error e → E (x.run s).2 e

variable {E : Store β → NodeError → Prop}

theorem Blames.pure (a : α) : p.Blames s (pure a) E :=
  ⟨.refl, fun _ he => nomatch he⟩

theorem Blames.mono {x : Work β α} {F : Store β → NodeError → Prop} (hx : p.Blames s x E)
    (hEF : ∀ s' e, E s' e → F s' e) : p.Blames s x F :=
  ⟨hx.steps, fun e he => hEF _ e (hx.error e he)⟩

theorem Blames.bind {x : Work β α} {f : α → Work β γ} (hx : p.Blames s x E)
    (hf : ∀ a s', x.run s = (.ok a, s') → p.Steps s s' → p.Blames s' (f a) E) :
    p.Blames s (x >>= f) E := by
  obtain ⟨hsteps, herror⟩ := hx
  rcases hrun : x.run s with ⟨e | a, s₁⟩ <;> rw [hrun] at hsteps herror
  · have hfirst : (x >>= f).run s = (.error e, s₁) := by rw [run_bind, hrun]
    refine ⟨by rwa [hfirst], fun e he => ?_⟩
    rw [hfirst] at he ⊢
    cases he
    exact herror _ rfl
  · obtain ⟨hsteps', herror'⟩ := hf a s₁ hrun hsteps
    have hfirst : (x >>= f).run s = (f a).run s₁ := by rw [run_bind, hrun]
    exact ⟨by rw [hfirst]; exact hsteps.trans hsteps', by rwa [hfirst]⟩

theorem Blames.mapM {f : α → Work β γ} {xs : List α}
    (hf : ∀ x ∈ xs, ∀ s', p.Steps s s' → p.Blames s' (f x) E) : p.Blames s (xs.mapM f) E := by
  induction xs generalizing s with
  | nil => exact .pure []
  | cons x xs ih =>
    rw [List.mapM_cons]
    refine (hf x List.mem_cons_self s .refl).bind fun y s₁ _ hsteps => ?_
    have hrest : p.Blames s₁ (xs.mapM f) E :=
      ih fun x hx s' hsteps' => hf x (List.mem_cons_of_mem _ hx) s' (hsteps.trans hsteps')
    exact hrest.bind fun ys s₂ _ _ => .pure _

/-- A request that brings no contents is refused by the world, or the arena is full. -/
theorem resolve_error (hs : p.Settled s) {requestedBy : Option NodeId} {r : Request}
    (hdata : r.data = none) (h : ((p.resolve requestedBy r).run s).1 = .error e) :
    ∃ fault, e = p.keyError s (p.key r) requestedBy fault ∧
      (p.world.nodeSymbol false (p.key r) = .error fault ∨
        (fault = .arenaFull ∧ ((p.resolve requestedBy r).run s).2.size = 0x100000000)) := by
  have hresolve : p.resolve requestedBy r = p.obtain (p.key r) none requestedBy := by
    rw [resolve, hdata, key]
  rw [hresolve] at h ⊢
  cases hk : s.lookup (p.key r) with
  | some m =>
    rw [obtain_existing hk, if_pos (by rfl)] at h
    cases h
  | none =>
    cases hname : p.world.nodeSymbol false (p.key r) with
    | error fault =>
      rw [obtain_faulty hk hname] at h
      cases h
      exact ⟨fault, rfl, .inl rfl⟩
    | ok name =>
      by_cases hroom : s.size < 0x100000000
      · rw [obtain_missing hk hname hroom] at h
        cases h
      · rw [obtain_full hk hname hroom] at h ⊢
        cases h
        exact ⟨.arenaFull, rfl, .inr ⟨rfl, Nat.le_antisymm hs.size_le (Nat.le_of_not_lt hroom)⟩⟩

section Questions

variable (hw : p.world.WellFormed) (hs : p.Settled s) (hn : s.node? n = some node)
include hn

/-- A node that asks goes by its name in every store that its question leads to. -/
theorem keyError_of_node (hsteps : p.Steps s s') (k : Key) (fault : KeyFault) :
    p.keyError s' k (some n) fault = .unresolved (k.describe p.world) (some node.name) fault := by
  obtain ⟨body, hn', -⟩ := (Steps.grows hsteps).nodes n node hn
  simp only [keyError, Option.map_some, Store.name, hn']

theorem bodyReferences_blames : p.Blames s (p.bodyReferences n node) (p.Stuck M node) := by
  refine ⟨(bodyReferences_does hn).steps, fun e he => ?_⟩
  unfold bodyReferences at he ⊢
  split at he
  · rename_i m hkey
    rcases hrun : (p.body n node m).run s with ⟨e' | body, s₁⟩
    · obtain ⟨-, cause, b, rfl, hb⟩ := body_fails hrun
      rw [run_bind, hrun] at he
      cases he
      exact .backend hkey hb
    · rw [run_bind, hrun] at he
      cases he
  · cases he

/-- Requests of the body may fail for any reason. -/
theorem reported_blames (hsteps : p.Steps s s') {m : MethodId} {b b' : β} {body : MethodBody}
    (hkey : node.key = .methodEntrypoint m)
    (hb : p.backend.compile p.world p.settings m b = (.ok body, b')) {r : Reference}
    (hr : r ∈ body.references) : p.Blames s' (p.edge n r) (p.Stuck M node) := by
  have hresolve : p.Blames s' (p.resolve (some n) r.target) (p.Stuck M node) := by
    refine ⟨Creates.steps (resolve_does _ _ s').steps, fun e he => ?_⟩
    rcases p.obtain_node s' (p.key r.target) r.target.data (some n) with
      ⟨m, s₁, hrun, -⟩ | ⟨fault, hrun⟩
    · cases he.symm.trans (congrArg Prod.fst hrun)
    · cases he.symm.trans (congrArg Prod.fst hrun)
      rw [keyError_of_node hn hsteps]
      exact .reported hkey hb hr fault
  exact hresolve.bind fun _ _ _ _ => .pure _

include hs

theorem resolve_blames (hsteps : p.Steps s s') {r : Request} (hdata : r.data = none)
    (hfault : ∀ s' fault, p.world.nodeSymbol false (p.key r) = .error fault →
      p.Stuck M node s' (.unresolved ((p.key r).describe p.world) (some node.name) fault)) :
    p.Blames s' (p.resolve (some n) r) (p.Stuck M node) := by
  refine ⟨Creates.steps (resolve_does _ _ s').steps, fun e he => ?_⟩
  obtain ⟨fault, rfl, hrefused | ⟨rfl, hfull⟩⟩ := resolve_error (hs.steps hsteps) hdata he
  · rw [keyError_of_node hn hsteps]
    exact hfault _ fault hrefused
  · rw [keyError_of_node hn hsteps]
    exact .full _ hfull

include hw

theorem own_blames (hsteps : p.Steps s s') {own : List Reference}
    (hown : p.world.references node.key = .ok own) {r : Reference} (hr : r ∈ own) :
    p.Blames s' (p.edge n r) (p.Stuck (p.world.Mentions node.key) node) := by
  have hdata := Request.data_of_has (hw.has_of_references hown r hr)
  refine (resolve_blames hs hn hsteps hdata fun s' fault hfault => ?_).bind fun _ _ _ _ => .pure _
  obtain ⟨t, htarget, hmentions, hopen, rfl⟩ :=
    hw.references_fault (hs.sound.named n node hn) hown hr hfault
  rw [htarget]
  exact .openType hmentions hopen

theorem overrideEdge_blames (hsteps : p.Steps s s') {overrides : List Override}
    (hoverrides : p.world.overridesOf node.key = .ok overrides) {o : Override} (ho : o ∈ overrides) :
    p.Blames s' (p.overrideEdge n o) (p.Stuck (p.world.Implements node.key) node) := by
  refine (resolve_blames hs hn hsteps rfl fun s' fault hfault => ?_).bind
    fun condition s₁ _ hsteps₁ => ?_
  · exact absurd hfault (hw.overrides_fault hoverrides ho).1
  refine (resolve_blames hs hn (hsteps.trans hsteps₁) rfl fun s' fault hfault => ?_).bind
    fun _ _ _ _ => .pure _
  obtain ⟨himplements, hopen, rfl⟩ := (hw.overrides_fault hoverrides ho).2 hfault
  exact .openMethod himplements hopen

theorem conditional_blames (hsteps : p.Steps s s') :
    p.Blames s' (p.conditional n) (p.Stuck (p.world.Implements node.key) node) := by
  obtain ⟨overrides, hoverrides⟩ := World.exists_overridesOf (hs.sound.named n node hn)
  obtain ⟨body, hn', -⟩ := (Steps.grows hsteps).nodes n node hn
  have hrun : (p.conditional n).run s' = (overrides.mapM (p.overrideEdge n)).run s' := by
    rw [conditional, node_ask_run hn', hoverrides]
  have hblames : p.Blames s' (overrides.mapM (p.overrideEdge n)) _ :=
    .mapM fun o ho s'' hsteps' => overrideEdge_blames hw hs hn (hsteps.trans hsteps') hoverrides ho
  exact ⟨hrun ▸ hblames.steps, hrun ▸ hblames.error⟩

theorem edges_blames : p.Blames s (p.edges n) (p.Stuck (p.world.Mentions node.key) node) := by
  obtain ⟨own, hown⟩ := World.exists_references (hs.sound.named n node hn)
  have hblames : p.Blames s (own.mapM (p.edge n) >>= fun ownEdges =>
      p.bodyReferences n node >>= fun found => found.mapM (p.edge n) >>= fun foundEdges =>
        pure (ownEdges ++ foundEdges)) (p.Stuck (p.world.Mentions node.key) node) := by
    refine Blames.bind (.mapM fun r hr s' hsteps => own_blames hw hs hn hsteps hown hr)
      fun ownEdges s₁ hrun hsteps₁ => ?_
    have hn₁ := Creates.node? ((mapM_edge_does own s).of_run hrun).2.1 hn
    refine (bodyReferences_blames hn₁).bind fun found s₂ hrun hsteps₂ => ?_
    obtain ⟨-, node', hn₂, hkey, -, rfl⟩ := (bodyReferences_does hn₁).of_run hrun
    have hsteps := hsteps₁.trans hsteps₂
    refine Blames.bind (.mapM fun r hr s' hsteps' => ?_) fun foundEdges s₃ _ _ => .pure _
    unfold Node.found at hr
    split at hr
    · rename_i m body hmethod hbody
      obtain ⟨m', b, b', hmethod', hb⟩ :=
        ((hs.steps hsteps).sound).compiled n node' body hn₂ hbody
      exact reported_blames hn (hsteps.trans hsteps') (hkey ▸ hmethod') hb hr
    · cases hr
  have hrun := edges_run hn hown
  exact ⟨hrun ▸ hblames.steps, hrun ▸ hblames.error⟩

/-- Both questions about a node. -/
theorem query_blames (h : (p.graph.query n s).1 = .error e) :
    p.Stuck (p.world.Expands node.key) node (p.graph.query n s).2 e := by
  have hedges : p.Blames s (p.edges n) (p.Stuck (p.world.Expands node.key) node) :=
    (edges_blames hw hs hn).mono fun _ _ hstuck => hstuck.mono fun _ => .inl
  have hconditional {s'} (hsteps : p.Steps s s') :
      p.Blames s' (p.conditional n) (p.Stuck (p.world.Expands node.key) node) :=
    (conditional_blames hw hs hn hsteps).mono fun _ _ hstuck => hstuck.mono fun _ => .inr
  have hboth := hedges.bind fun edges s₁ _ hsteps => (hconditional hsteps).bind
    fun conditional _ _ _ => .pure (Dependencies.mk edges conditional)
  rw [query_eq_run] at h ⊢
  exact hboth.error e h

end Questions

end Program

end AheadOfTime
