import AheadOfTime.Proofs.Marking.Reworded
import AheadOfTime.Proofs.Node.Repeated
import AheadOfTime.Proofs.Node.Universe

/-! One program in two units. Let the units decide alike on every type and method of the world. Then
each request is bound to the same key in both, unless it is about something that the world does not
have, and that fails in both. So all work does the same to a store in both units, and errors differ
at most in the key that they show of an unknown type or method (`graph_rewords`). -/

namespace AheadOfTime

/-- What the world says of a type or method that it does not have. -/
def Entity.unknown : Entity → Option WorldError
  | .method m => some (.noMethod m)
  | .type t => some (.noType t)
  | .symbol _ => none

/-- Two errors are the same, or they are about one type or method that the world does not have and
show the keys that it has in two units. -/
inductive NodeError.Reworded (w : World) : NodeError → NodeError → Prop where
  | same (e : NodeError) : Reworded w e e
  | unknown {k k' : Key} {e : WorldError} (requestedBy : Option String)
      (hk : k.entity = k'.entity) (hnone : ¬ w.Has k.entity) (he : k.entity.unknown = some e) :
      Reworded w (.unresolved (k.describe w) requestedBy (.unknown e))
        (.unresolved (k'.describe w) requestedBy (.unknown e))

namespace World

variable {w : World} {e : WorldError}

section Methods

variable {m : MethodId} (hm : w.methodInfo m = .error e)
include hm

theorem ensureClosedMethod_unknown : w.ensureClosedMethod m = .error (.unknown e) := by
  rw [ensureClosedMethod, isOpenMethod, hm]
  rfl

theorem ensureMethodInstance_unknown : w.ensureMethodInstance m = .error (.unknown e) := by
  rw [ensureMethodInstance, ensureClosedMethod_unknown hm]
  rfl

theorem ensureVirtual_unknown : w.ensureVirtual m = .error (.unknown e) := by
  rw [ensureVirtual, hm]
  rfl

end Methods

section Types

variable {t : TypeId} (ht : w.typeInfo t = .error e)
include ht

theorem ensureClosedType_unknown : w.ensureClosedType t = .error (.unknown e) := by
  rw [ensureClosedType, ht]
  rfl

theorem ensureTypeInstance_unknown : w.ensureTypeInstance t = .error (.unknown e) := by
  rw [ensureTypeInstance, ensureClosedType_unknown ht]
  rfl

end Types

/-- No key of an unknown type or method can have a node, for the same reason. -/
theorem nodeSymbol_unknown {k : Key} (hnone : ¬ w.Has k.entity) (he : k.entity.unknown = some e)
    (b : Bool) : w.nodeSymbol b k = .error (.unknown e) := by
  have hmethod {m : MethodId} (h : ¬ w.Has (.method m)) :
      w.methodInfo m = .error (.noMethod m) := methodInfo_eq_error (Nat.le_of_not_lt h)
  have htype {t : TypeId} (h : ¬ w.Has (.type t)) : w.typeInfo t = .error (.noType t) :=
    typeInfo_eq_error (Nat.le_of_not_lt h)
  cases k with
  | methodEntrypoint m | externMethod m =>
    cases he
    rw [nodeSymbol, ensureClosedMethod_unknown (hmethod hnone)]
    rfl
  | typeDescriptor t | importedTypeDescriptor t =>
    cases he
    rw [nodeSymbol, ensureClosedType_unknown (htype hnone)]
    rfl
  | virtualMethodUse m =>
    cases he
    rw [nodeSymbol, ensureVirtual_unknown (hmethod hnone)]
    rfl
  | methodDictionary m | importedMethodDictionary m =>
    cases he
    rw [nodeSymbol, ensureMethodInstance_unknown (hmethod hnone)]
    rfl
  | typeDictionary t | importedTypeDictionary t =>
    cases he
    rw [nodeSymbol, ensureTypeInstance_unknown (htype hnone)]
    rfl
  | externSymbol name | dataBlob name => cases he

/-- Nodes are of what the world has, or of symbols. -/
theorem has_of_nodeSymbol {k : Key} {b : Bool} {name : String} (h : w.nodeSymbol b k = .ok name)
    (he : k.entity.unknown = some e) : w.Has k.entity := by
  by_contra hnone
  rw [nodeSymbol_unknown hnone he] at h
  cases h

end World

namespace CompilationUnit

variable {w : World} {u v : CompilationUnit}

/-- Two units decide alike on all that the world has. -/
def Agrees (w : World) (u v : CompilationUnit) : Prop :=
  ∀ r : Request, w.Has r.entity → u.bind w r = v.bind w r

theorem Agrees.bind_eq_or_unknown (h : Agrees w u v) (r : Request) :
    u.bind w r = v.bind w r ∨ (¬ w.Has r.entity ∧ ∃ e, r.entity.unknown = some e) := by
  by_cases hhas : w.Has r.entity
  · exact .inl (h r hhas)
  · cases r with
    | externSymbol name | dataBlob name data => exact .inl rfl
    | _ => exact .inr ⟨hhas, _, rfl⟩

end CompilationUnit

namespace Program

variable {β α γ : Type} {p : Program β} {v : CompilationUnit} {s : Store β} {n : NodeId}

/-- Work `y` does on a store what `x` does, and says what it says, in words of its own. -/
structure Rewords (p : Program β) (s : Store β) (x y : Work β α) : Prop where
  steps : p.Steps s (x.run s).2
  state : (x.run s).2 = (y.run s).2
  answer : Reworded (NodeError.Reworded p.world) (x.run s).1 (y.run s).1

theorem Rewords.same {x : Work β α} (h : p.Steps s (x.run s).2) : p.Rewords s x x := by
  refine ⟨h, rfl, ?_⟩
  cases (x.run s).1 with
  | ok a => exact .ok a
  | error e => exact .error (.same e)

theorem Rewords.pure (a : α) : p.Rewords s (pure a) (pure a) := .same .refl

theorem Rewords.bind {x y : Work β α} {f g : α → Work β γ} (hx : p.Rewords s x y)
    (hf : ∀ a s', x.run s = (.ok a, s') → p.Rewords s' (f a) (g a)) :
    p.Rewords s (x >>= f) (y >>= g) := by
  obtain ⟨hsteps, hstate, hanswer⟩ := hx
  rcases hrun : x.run s with ⟨a, s'⟩
  rcases hrun' : y.run s with ⟨a', s''⟩
  rw [hrun, hrun'] at hstate hanswer
  rw [hrun] at hsteps
  cases hstate
  cases hanswer with
  | ok a =>
    obtain ⟨hsteps', hstate', hanswer'⟩ := hf a s' hrun
    constructor <;> rw [run_bind, hrun] <;> try rw [run_bind, hrun']
    · exact hsteps.trans hsteps'
    · exact hstate'
    · exact hanswer'
  | error he =>
    constructor <;> rw [run_bind, hrun] <;> try rw [run_bind, hrun']
    · exact hsteps
    · exact .error he

theorem Rewords.mapM {f g : α → Work β γ} (hs : p.Sound s)
    (hf : ∀ x s, p.Sound s → p.Rewords s (f x) (g x)) (xs : List α) :
    p.Rewords s (xs.mapM f) (xs.mapM g) := by
  induction xs generalizing s with
  | nil => exact .pure []
  | cons x xs ih =>
    rw [List.mapM_cons, List.mapM_cons]
    refine (hf x s hs).bind fun y s₁ hrun => ?_
    have hs₁ : p.Sound s₁ := hs.steps (by simpa [hrun] using (hf x s hs).steps)
    exact (ih hs₁).bind fun ys s₂ _ => .pure _

theorem Sound.lookup_unknown (hs : p.Sound s) {k : Key} {e : WorldError}
    (hnone : ¬ p.world.Has k.entity) (he : k.entity.unknown = some e) : s.lookup k = none := by
  refine Option.eq_none_iff_forall_ne_some.mpr fun n hn => hnone ?_
  obtain ⟨node, hnode, rfl⟩ := (hs.lookup_iff k n).mp hn
  exact World.has_of_nodeSymbol (hs.named n node hnode) he

variable (hv : p.unit.Agrees p.world v)
include hv

theorem resolve_rewords (hs : p.Sound s) (requestedBy : Option NodeId) (r : Request) :
    p.Rewords s (p.resolve requestedBy r) ({ p with unit := v }.resolve requestedBy r) := by
  have hsteps := Creates.steps (resolve_does (p := p) requestedBy r s).steps
  rcases hv.bind_eq_or_unknown r with heq | ⟨hnone, e, he⟩
  · have hsame : { p with unit := v }.resolve requestedBy r = p.resolve requestedBy r := by
      rw [resolve, resolve, ← heq]
      rfl
    rw [hsame]
    exact .same hsteps
  · have hrun (u : CompilationUnit) :
        (p.obtain (u.bind p.world r) r.data requestedBy).run s =
          (.error (p.keyError s (u.bind p.world r) requestedBy (.unknown e)), s) := by
      rw [← u.entity_bind p.world] at hnone he
      exact obtain_faulty (hs.lookup_unknown hnone he) (World.nodeSymbol_unknown hnone he _) _
    have hthis : (p.resolve requestedBy r).run s = _ := hrun p.unit
    have hthat : ({ p with unit := v }.resolve requestedBy r).run s = _ := hrun v
    refine ⟨hsteps, by rw [hthis, hthat], ?_⟩
    rw [hthis, hthat]
    refine .error (.unknown _ ?_ ?_ ?_)
    · simp
    · simpa
    · simpa

theorem edge_rewords (hs : p.Sound s) (r : Reference) :
    p.Rewords s (p.edge n r) ({ p with unit := v }.edge n r) :=
  (resolve_rewords hv hs (some n) r.target).bind fun _ _ _ => .pure _

theorem overrideEdge_rewords (hs : p.Sound s) (o : Override) :
    p.Rewords s (p.overrideEdge n o) ({ p with unit := v }.overrideEdge n o) := by
  refine (resolve_rewords hv hs (some n) _).bind fun condition s₁ hrun => ?_
  have hs₁ := hs.steps (Creates.steps ((resolve_does _ _ s).of_run hrun).1)
  exact (resolve_rewords hv hs₁ (some n) _).bind fun _ _ _ => .pure _

theorem edges_rewords (hs : p.Sound s) (n : NodeId) :
    p.Rewords s (p.edges n) ({ p with unit := v }.edges n) := by
  refine (Rewords.same (node_does n s).steps).bind fun node s₁ hrun => ?_
  obtain ⟨-, rfl, hn⟩ := (node_does (T := p.Step) n s).of_run hrun
  refine (Rewords.same (ask_does _ _ s₁).steps).bind fun own s₂ hrun => ?_
  obtain ⟨-, rfl, -⟩ := (ask_does (T := p.Step) _ _ s₁).of_run hrun
  refine (Rewords.mapM hs (fun r s hs => edge_rewords hv hs r) own).bind fun ownEdges s₃ hrun => ?_
  obtain ⟨hsteps, hmade, -⟩ := (mapM_edge_does own s₂).of_run hrun
  have hbody := bodyReferences_does (p := p) (hmade.node? hn)
  refine (Rewords.same hbody.steps).bind fun found s₄ hrun => ?_
  have hs₄ := (hs.steps hsteps).steps (hbody.of_run hrun).1
  exact (Rewords.mapM hs₄ (fun r s hs => edge_rewords hv hs r) found).bind fun _ _ _ => .pure _

theorem conditional_rewords (hs : p.Sound s) (n : NodeId) :
    p.Rewords s (p.conditional n) ({ p with unit := v }.conditional n) := by
  refine (Rewords.same (node_does n s).steps).bind fun node s₁ hrun => ?_
  obtain ⟨-, rfl, -⟩ := (node_does (T := p.Step) n s).of_run hrun
  refine (Rewords.same (ask_does _ _ s₁).steps).bind fun overrides s₂ hrun => ?_
  obtain ⟨-, rfl, -⟩ := (ask_does (T := p.Step) _ _ s₁).of_run hrun
  exact Rewords.mapM hs (fun o s hs => overrideEdge_rewords hv hs o) overrides

theorem query_rewords (hs : p.Sound s) (n : NodeId) :
    (p.graph.query n s).2 = ({ p with unit := v }.graph.query n s).2 ∧
      Reworded (NodeError.Reworded p.world) (p.graph.query n s).1
        ({ p with unit := v }.graph.query n s).1 := by
  rw [query_eq_run, query_eq_run]
  have hrewords := (edges_rewords hv hs n).bind
    (f := fun es => p.conditional n >>= fun ds => pure (Dependencies.mk es ds))
    (g := fun es => { p with unit := v }.conditional n >>= fun ds => pure (Dependencies.mk es ds))
    fun es s₁ hrun => (conditional_rewords hv (hs.steps ((edges_does n s).of_run hrun).1) n).bind
      fun ds _ _ => .pure _
  exact ⟨hrewords.state, hrewords.answer⟩

theorem graph_rewords :
    p.graph.Rewords { p with unit := v }.graph p.Sound (NodeError.Reworded p.world) where
  keeps s hs n := hs.steps (p.query_steps n s)
  name := rfl
  state hs n := (query_rewords hv hs n).1
  answer hs n := (query_rewords hv hs n).2

end Program

end AheadOfTime
