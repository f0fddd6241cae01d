import AheadOfTime.Proofs.Marking.Known
import AheadOfTime.Proofs.Node.Expansion

/-! Errors tell who asked. All that goes wrong while a node is asked about is told under the name of
that node (`NodeError.About`), whether a request fails, of those of the node or of its body, or the
backend. The two errors that name nobody, of a handle without a node and of an entity that the world
has not, do not occur: a node that exists can be asked (`Askable`). -/

namespace AheadOfTime

variable {β : Type}

/-- An error that names a node: as the one that asked for what cannot be had, or as the method that
cannot be compiled. -/
inductive NodeError.About (name : String) : NodeError → Prop where
  | unresolved (key : String) {fault : KeyFault} (hfault : fault ≠ .foreignNode) :
    About name (.unresolved key (some name) fault)
  | codegen (cause : BackendError) : About name (.codegen name cause)

namespace World

variable {α γ : Type} {w : World}

theorem known_ne_foreignNode (r : Except WorldError α) : known r ≠ .error .foreignNode := by
  cases r <;> simp [known, Except.mapError]

theorem bind_ne_foreignNode {x : Except KeyFault α} {f : α → Except KeyFault γ}
    (hx : x ≠ .error .foreignNode) (hf : ∀ a, f a ≠ .error .foreignNode) :
    x >>= f ≠ .error .foreignNode := by
  cases x with
  | error fault => exact fun h => hx (by cases h; rfl)
  | ok a => exact hf a

theorem guard_ne_foreignNode (b : Prop) [Decidable b] {fault : KeyFault}
    (hfault : fault ≠ .foreignNode) :
    (if b then throw fault else pure ()) ≠ (.error .foreignNode : Except KeyFault Unit) := by
  split
  · exact fun h => hfault (Except.error.inj h)
  · exact fun h => nomatch h

theorem ensureClosedMethod_ne_foreignNode (m : MethodId) :
    w.ensureClosedMethod m ≠ .error .foreignNode :=
  bind_ne_foreignNode (known_ne_foreignNode _) fun _ => guard_ne_foreignNode _ (by decide)

theorem ensureClosedType_ne_foreignNode (t : TypeId) :
    w.ensureClosedType t ≠ .error .foreignNode :=
  bind_ne_foreignNode (known_ne_foreignNode _) fun _ => guard_ne_foreignNode _ (by decide)

theorem ensureVirtual_ne_foreignNode (m : MethodId) : w.ensureVirtual m ≠ .error .foreignNode := by
  refine bind_ne_foreignNode (known_ne_foreignNode _) fun info => ?_
  cases info.isVirtual
  · exact fun h => nomatch h
  · exact fun h => nomatch h

theorem ensureMethodInstance_ne_foreignNode (m : MethodId) :
    w.ensureMethodInstance m ≠ .error .foreignNode :=
  bind_ne_foreignNode (ensureClosedMethod_ne_foreignNode m) fun _ =>
    bind_ne_foreignNode (known_ne_foreignNode _) fun _ => guard_ne_foreignNode _ (by decide)

theorem ensureTypeInstance_ne_foreignNode (t : TypeId) :
    w.ensureTypeInstance t ≠ .error .foreignNode :=
  bind_ne_foreignNode (ensureClosedType_ne_foreignNode t) fun _ =>
    bind_ne_foreignNode (known_ne_foreignNode _) fun _ => guard_ne_foreignNode _ (by decide)

/-- The check of a key is not about handles. -/
theorem nodeSymbol_ne_foreignNode (hasData : Bool) (k : Key) :
    w.nodeSymbol hasData k ≠ .error .foreignNode := by
  have himported (r : Except WorldError String) :
      (known r >>= fun name => pure (Symbol.imported name)) ≠ .error .foreignNode :=
    bind_ne_foreignNode (known_ne_foreignNode r) fun _ => by simp [pure, Except.pure]
  cases k with
  | methodEntrypoint m | externMethod m =>
    exact bind_ne_foreignNode (ensureClosedMethod_ne_foreignNode m) fun _ => known_ne_foreignNode _
  | typeDescriptor t =>
    exact bind_ne_foreignNode (ensureClosedType_ne_foreignNode t) fun _ => known_ne_foreignNode _
  | importedTypeDescriptor t =>
    exact bind_ne_foreignNode (ensureClosedType_ne_foreignNode t) fun _ => himported _
  | virtualMethodUse m =>
    exact bind_ne_foreignNode (ensureVirtual_ne_foreignNode m) fun _ => known_ne_foreignNode _
  | methodDictionary m =>
    exact bind_ne_foreignNode (ensureMethodInstance_ne_foreignNode m) fun _ =>
      known_ne_foreignNode _
  | importedMethodDictionary m =>
    exact bind_ne_foreignNode (ensureMethodInstance_ne_foreignNode m) fun _ => himported _
  | typeDictionary t =>
    exact bind_ne_foreignNode (ensureTypeInstance_ne_foreignNode t) fun _ => known_ne_foreignNode _
  | importedTypeDictionary t =>
    exact bind_ne_foreignNode (ensureTypeInstance_ne_foreignNode t) fun _ => himported _
  | externSymbol name =>
    rw [nodeSymbol]
    split <;> simp
  | dataBlob name =>
    rw [nodeSymbol]
    split_ifs <;> simp

end World

namespace Program

variable {α γ : Type} {p : Program β} {s s' : Store β} {n : NodeId} {node : Node}

/-- What cannot be had is told under the name of who asked for it, and never for want of a node with
a handle. -/
theorem obtain_error {k : Key} {data : Option Blob} {requestedBy : Option NodeId} {e : NodeError}
    (h : ((p.obtain k data requestedBy).run s).1 = .error e) :
    ∃ fault, fault ≠ .foreignNode ∧ e = p.keyError s k requestedBy fault := by
  cases hk : s.lookup k with
  | some m =>
    rw [obtain_existing hk] at h
    split at h <;> cases h
    exact ⟨.otherContents, by decide, rfl⟩
  | none =>
    cases hname : p.world.nodeSymbol data.isSome k with
    | error fault =>
      rw [obtain_faulty hk hname] at h
      cases h
      refine ⟨fault, ?_, rfl⟩
      rintro rfl
      exact World.nodeSymbol_ne_foreignNode _ _ hname
    | ok name =>
      by_cases hroom : s.size < 0x100000000
      · rw [obtain_missing hk hname hroom] at h
        cases h
      · rw [obtain_full hk hname hroom] at h
        cases h
        exact ⟨.arenaFull, by decide, rfl⟩

/-- Work that fails under a name. -/
abbrev FailsAs (p : Program β) (name : String) (s : Store β) (x : Work β α) : Prop :=
  p.Blames s x fun _ e => e.About name

section Questions

variable (hn : s.node? n = some node)
include hn

theorem resolve_failsAs (hsteps : p.Steps s s') (r : Request) :
    p.FailsAs node.name s' (p.resolve (some n) r) := by
  refine ⟨Creates.steps (resolve_does _ _ s').steps, fun e he => ?_⟩
  obtain ⟨fault, hfault, rfl⟩ := obtain_error he
  rw [keyError_of_node hn hsteps]
  exact .unresolved _ hfault

theorem edge_failsAs (hsteps : p.Steps s s') (r : Reference) :
    p.FailsAs node.name s' (p.edge n r) :=
  (resolve_failsAs hn hsteps r.target).bind fun _ _ _ _ => .pure _

theorem overrideEdge_failsAs (hsteps : p.Steps s s') (o : Override) :
    p.FailsAs node.name s' (p.overrideEdge n o) :=
  (resolve_failsAs hn hsteps _).bind fun _ _ _ hsteps' =>
    (resolve_failsAs hn (hsteps.trans hsteps') _).bind fun _ _ _ _ => .pure _

theorem bodyReferences_failsAs : p.FailsAs node.name s (p.bodyReferences n node) := by
  refine ⟨(bodyReferences_does hn).steps, fun e he => ?_⟩
  unfold bodyReferences at he
  split at he
  · rename_i m hkey
    rcases hrun : (p.body n node m).run s with ⟨e' | body, s₁⟩
    · obtain ⟨-, cause, b, rfl, hb⟩ := body_fails hrun
      rw [run_bind, hrun] at he
      cases he
      exact .codegen cause
    · rw [run_bind, hrun] at he
      cases he
  · cases he

/-- A node can be asked: it is there, and so is what the world knows of its entity. -/
structure Askable (p : Program β) (n : NodeId) (s : Store β) : Prop where
  exists_node : n ∈ existing s
  references : ∀ node, s.node? n = some node → ∃ own, p.world.references node.key = .ok own
  overrides : ∀ node, s.node? n = some node →
    ∃ overrides, p.world.overridesOf node.key = .ok overrides

end Questions

/-- Every node that exists has passed the check of its key. -/
theorem Sound.askable (hs : p.Sound s) (hn : n ∈ existing s) : p.Askable n s :=
  ⟨hn, fun node hnode => World.exists_references (hs.named n node hnode),
    fun node hnode => World.exists_overridesOf (hs.named n node hnode)⟩

theorem conditional_failsAs (hs : p.Sound s) (hn : s.node? n = some node) :
    p.FailsAs node.name s (p.conditional n) := by
  obtain ⟨overrides, hoverrides⟩ := World.exists_overridesOf (hs.named n node hn)
  have hrun : (p.conditional n).run s = (overrides.mapM (p.overrideEdge n)).run s := by
    rw [conditional, node_ask_run hn, hoverrides]
  have hfails : p.FailsAs node.name s (overrides.mapM (p.overrideEdge n)) :=
    .mapM fun o _ s' hsteps => overrideEdge_failsAs hn hsteps o
  exact ⟨hrun ▸ hfails.steps, hrun ▸ hfails.error⟩

theorem edges_failsAs (hs : p.Sound s) (hn : s.node? n = some node) :
    p.FailsAs node.name s (p.edges n) := by
  obtain ⟨own, hown⟩ := World.exists_references (hs.named n node hn)
  have hfails : p.FailsAs node.name s (own.mapM (p.edge n) >>= fun ownEdges =>
      p.bodyReferences n node >>= fun found => found.mapM (p.edge n) >>= fun foundEdges =>
        pure (ownEdges ++ foundEdges)) := by
    refine Blames.bind (.mapM fun r _ s' hsteps => edge_failsAs hn hsteps r)
      fun ownEdges s₁ hrun hsteps₁ => ?_
    have hn₁ := Creates.node? ((mapM_edge_does own s).of_run hrun).2.1 hn
    refine (bodyReferences_failsAs hn₁).bind fun found s₂ _ hsteps₂ => ?_
    exact Blames.bind (.mapM fun r _ s' hsteps => edge_failsAs hn₁ (hsteps₂.trans hsteps) r)
      fun _ _ _ _ => .pure _
  have hrun := edges_run hn hown
  exact ⟨hrun ▸ hfails.steps, hrun ▸ hfails.error⟩

/-- Both questions about a node. -/
theorem query_error (hs : p.Sound s) (hn : s.node? n = some node) {e : NodeError}
    (h : (p.graph.query n s).1 = .error e) : e.About node.name := by
  have hboth : p.FailsAs node.name s (p.edges n >>= fun edges =>
      p.conditional n >>= fun conditional => pure (Dependencies.mk edges conditional)) := by
    refine (edges_failsAs hs hn).bind fun edges s₁ hrun hsteps => ?_
    obtain ⟨body, hn₁, -⟩ := (Steps.grows hsteps).nodes n node hn
    have hconditional := conditional_failsAs (hs.steps hsteps) hn₁
    exact hconditional.bind fun _ _ _ _ => .pure _
  rw [query_eq_run] at h
  exact hboth.error e h

/-- Questions about nodes that exist lead to nodes that exist. -/
theorem familiar_existing (p : Program β) : p.graph.Familiar p.Sound existing where
  keeps hs _ := hs.steps (p.query_steps _ _)
  stays _ _ := existing_mono (p.query_steps _ _).grows
  leads hs _ hdeps := (hs.steps (p.query_steps _ _)).leadInto_existing (answered_query hdeps)

end Program

end AheadOfTime
