import AheadOfTime.Proofs.Node.Identity
import AheadOfTime.Proofs.Node.Universe
import AheadOfTime.Proofs.Symbol.Kinds

/-! The boundary of a unit. A request is bound to a node of the unit or to a link to another, as the
unit decides. So where no key was spelled out, nothing is both defined and linked to (`Bound.apart`).
A unit that is given by its modules has all that its own methods, descriptors and dictionaries
mention; so edges that lead out of it are of bases, of what declares a slot, of overrides, or of
code (`edges_boundary`). -/

namespace AheadOfTime

namespace Key

/-- The key of the link to a method, descriptor or dictionary, should another unit define it. -/
def link : Key → Option Key
  | .methodEntrypoint m => some (.externMethod m)
  | .typeDescriptor t => some (.importedTypeDescriptor t)
  | .methodDictionary m => some (.importedMethodDictionary m)
  | .typeDictionary t => some (.importedTypeDictionary t)
  | _ => none

/-- Whether nodes with this key are defined in this unit, and could be in another. -/
def isLocal (k : Key) : Bool := k.link.isSome

/-- Whether nodes with this key are links to other units. -/
def isLink : Key → Bool
  | .externMethod _ | .importedTypeDescriptor _ | .importedMethodDictionary _
  | .importedTypeDictionary _ => true
  | _ => false

end Key

namespace CompilationUnit

variable {u : CompilationUnit} {w : World}

/-- A unit defines what it emits and links to what it does not. Slots, symbols and data are on no
side. -/
def Binds (u : CompilationUnit) (w : World) : Key → Prop
  | .methodEntrypoint m => u.emitsMethod w m = true
  | .externMethod m => u.emitsMethod w m = false
  | .typeDescriptor t => u.emitsType w t = true
  | .importedTypeDescriptor t => u.emitsType w t = false
  | .methodDictionary m => u.emitsMethodDictionary w m = true
  | .importedMethodDictionary m => u.emitsMethodDictionary w m = false
  | .typeDictionary t => u.emitsTypeDictionary w t = true
  | .importedTypeDictionary t => u.emitsTypeDictionary w t = false
  | .virtualMethodUse _ | .externSymbol _ | .dataBlob _ => True

theorem binds_bind (u : CompilationUnit) (w : World) (r : Request) : u.Binds w (u.bind w r) := by
  cases r with
  | methodEntrypoint m | typeHandle t | methodDictionary m | typeDictionary t =>
    rw [bind]
    split <;> simp_all [Binds]
  | virtualMethodUse m | externSymbol name | dataBlob name data => trivial

theorem Binds.not_link {k l : Key} (h : u.Binds w k) (hkl : k.link = some l) : ¬ u.Binds w l := by
  cases k <;> cases hkl <;> simp_all [Binds]

end CompilationUnit

/-- Everything but a node for a key that is spelled out. -/
def Operation.IsRequest : Operation → Prop
  | .obtain _ => False
  | _ => True

namespace Program

variable {β : Type} {p : Program β} {s s' s'' : Store β}

/-- Requests lead from one store to another. -/
def LeadsTo (p : Program β) (s s' : Store β) : Prop :=
  ∃ os : List Operation, (∀ o ∈ os, o.IsRequest) ∧ os.foldl p.perform s = s'

theorem LeadsTo.refl (p : Program β) (s : Store β) : p.LeadsTo s s :=
  ⟨[], fun _ ho => absurd ho List.not_mem_nil, rfl⟩

theorem LeadsTo.trans (h : p.LeadsTo s s') (h' : p.LeadsTo s' s'') : p.LeadsTo s s'' := by
  obtain ⟨os, hos, rfl⟩ := h
  obtain ⟨os', hos', rfl⟩ := h'
  exact ⟨os ++ os', List.forall_mem_append.mpr ⟨hos, hos'⟩, List.foldl_append⟩

theorem LeadsTo.single {o : Operation} (ho : o.IsRequest) (s : Store β) :
    p.LeadsTo s (p.perform s o) :=
  ⟨[o], fun _ h => List.mem_singleton.mp h ▸ ho, rfl⟩

theorem LeadsTo.steps (h : p.LeadsTo s s') : p.Steps s s' := by
  obtain ⟨os, -, rfl⟩ := h
  exact p.foldl_perform_steps s os

/-- A question about a node asks for its edges and then, perhaps, for its conditional ones. -/
theorem LeadsTo.query (p : Program β) (n : NodeId) (s : Store β) :
    p.LeadsTo s (p.graph.query n s).2 := by
  have hedges : p.LeadsTo s (p.graph.edges n s).2 := .single (o := .edges n) trivial s
  unfold Graph.query
  split <;> rename_i hq <;> rw [hq] at hedges
  · exact hedges
  · have hconditional := fun s => LeadsTo.single (p := p) (o := .conditional n) trivial s
    split <;> rename_i hq'
    · exact hedges.trans ((congrArg (p.LeadsTo _ ·.2) hq').mp (hconditional _))
    · exact hedges.trans ((congrArg (p.LeadsTo _ ·.2) hq').mp (hconditional _))

/-- A store in order whose nodes are all on the side of the boundary that the unit puts them. -/
structure Bound (p : Program β) (s : Store β) : Prop extends p.Settled s where
  binds : ∀ k, (s.lookup k).isSome → p.unit.Binds p.world k

theorem bound_empty (p : Program β) (b : β) : p.Bound (.empty b) :=
  ⟨p.settled_empty b, fun k hk => by simp [Store.lookup, Store.empty] at hk⟩

/-- Nothing that a question asks for is anywhere but where the unit puts it. -/
theorem encloses_binds (p : Program β) : p.Encloses {k | p.unit.Binds p.world k} where
  own _ r _ := p.unit.binds_bind p.world r.target
  body _ r _ := p.unit.binds_bind p.world r.target
  overrides _ o _ := ⟨p.unit.binds_bind p.world (.virtualMethodUse o.declaration),
    p.unit.binds_bind p.world (.methodEntrypoint o.implementation)⟩

theorem perform_adds_binds (hs : p.Sound s) {o : Operation} (ho : o.IsRequest) :
    s.AddsOnly {k | p.unit.Binds p.world k} (p.perform s o) := by
  cases o with
  | obtain k => exact ho.elim
  | resolve r =>
    exact addsOnly_of_reflTransGen (resolve_adds none (p.unit.binds_bind p.world r) s).steps
  | edges n => exact addsOnly_of_reflTransGen (edges_adds p.encloses_binds hs n).steps
  | conditional n => exact addsOnly_of_reflTransGen (conditional_adds p.encloses_binds n s).steps

theorem Bound.perform (h : p.Bound s) {o : Operation} (ho : o.IsRequest) :
    p.Bound (p.perform s o) :=
  ⟨h.toSettled.steps (p.perform_steps s o), fun k hk =>
    (perform_adds_binds h.sound ho k hk).elim (h.binds k) id⟩

theorem Bound.leadsTo (h : p.Bound s) (hs : p.LeadsTo s s') : p.Bound s' := by
  obtain ⟨os, hos, rfl⟩ := hs
  induction os generalizing s with
  | nil => exact h
  | cons o os ih =>
    exact ih (h.perform (hos o List.mem_cons_self)) fun o' ho' => hos o' (List.mem_cons_of_mem o ho')

/-- Nothing is both defined and linked to. -/
theorem Bound.apart (h : p.Bound s) {k l : Key} (hkl : k.link = some l) :
    ¬ ((s.lookup k).isSome ∧ (s.lookup l).isSome) :=
  fun ⟨hk, hl⟩ => (h.binds k hk).not_link hkl (h.binds l hl)

end Program

namespace CompilationUnit

variable {w : World} {ids : List ModuleId}

theorem emitsType_args {t : TypeId} {info : TypeInfo} (hinfo : w.typeInfo t = .ok info)
    (ht : (modules ids).emitsType w t = true) :
    ∀ a ∈ info.args, (modules ids).emitsType w a = true := by
  rw [emitsType, World.isWithin_eq hinfo, World.isWithinGiven, Bool.and_eq_true] at ht
  exact List.all_eq_true.mp ht.2

theorem emitsMethod_eq {m : MethodId} {info : MethodInfo} (hinfo : w.methodInfo m = .ok info) :
    (modules ids).emitsMethod w m =
      ((modules ids).emitsType w info.owner && info.args.all ((modules ids).emitsType w)) := by
  rw [emitsMethod, hinfo]
  rfl

/-- What a unit of modules refers to from its own nodes is its own, apart from bases and from the
types that declare slots. -/
theorem references_isLocal {k : Key} {own : List Reference} (hk : (modules ids).Binds w k)
    (hown : w.references k = .ok own) : ∀ r ∈ own,
      ((modules ids).bind w r.target).isLocal ∨ (r.reason = "base type" ∧ ∃ t, k = .typeDescriptor t) ∨
        (r.reason = "declaring type" ∧ ∃ m, k = .virtualMethodUse m) := by
  have hhandle {t : TypeId} (ht : (modules ids).emitsType w t = true) :
      ((modules ids).bind w (.typeHandle t)).isLocal := by
    rw [bind, if_pos ht]
    rfl
  intro r hr
  cases k with
  | methodEntrypoint m =>
    obtain ⟨info, hinfo, hown⟩ := Except.bind_eq_ok.mp hown
    cases hown
    have hm : (modules ids).emitsMethod w m = true := hk
    have howner := hm
    rw [emitsMethod_eq hinfo, Bool.and_eq_true] at howner
    rcases List.mem_cons.mp hr with rfl | hr
    · exact .inl (hhandle howner.1)
    · split at hr
      · cases hr
      · have hdictionary : (modules ids).bind w (.methodDictionary m) = .methodDictionary m :=
          if_pos hm
        rw [List.mem_singleton.mp hr, hdictionary]
        exact .inl rfl
  | typeDescriptor t =>
    obtain ⟨info, hinfo, hown⟩ := Except.bind_eq_ok.mp hown
    cases hown
    rcases List.mem_append.mp hr with hr | hr
    · obtain ⟨b, -, rfl⟩ := List.mem_map.mp hr
      exact .inr (.inl ⟨rfl, t, rfl⟩)
    · split at hr
      · cases hr
      · have hdictionary : (modules ids).bind w (.typeDictionary t) = .typeDictionary t :=
          if_pos hk
        rw [List.mem_singleton.mp hr, hdictionary]
        exact .inl rfl
  | virtualMethodUse m =>
    obtain ⟨info, -, hown⟩ := Except.bind_eq_ok.mp hown
    cases hown
    rw [List.mem_singleton.mp hr]
    exact .inr (.inr ⟨rfl, m, rfl⟩)
  | methodDictionary m =>
    obtain ⟨info, hinfo, hown⟩ := Except.bind_eq_ok.mp hown
    cases hown
    obtain ⟨a, ha, rfl⟩ := List.mem_map.mp hr
    have hm : (modules ids).emitsMethod w m = true := hk
    rw [emitsMethod_eq hinfo, Bool.and_eq_true] at hm
    exact .inl (hhandle (List.all_eq_true.mp hm.2 a ha))
  | typeDictionary t =>
    obtain ⟨info, hinfo, hown⟩ := Except.bind_eq_ok.mp hown
    cases hown
    obtain ⟨a, ha, rfl⟩ := List.mem_map.mp hr
    exact .inl (hhandle (emitsType_args hinfo hk a ha))
  | externMethod m | importedTypeDescriptor t | importedMethodDictionary m
  | importedTypeDictionary t | externSymbol name | dataBlob name =>
    cases hown
    cases hr

end CompilationUnit

/-- The key of the node with a handle. -/
def Store.key? {β : Type} (s : Store β) (n : NodeId) : Option Key := (s.node? n).map Node.key

namespace Program

variable {β : Type} {p : Program β} {s s' : Store β} {n : NodeId}

theorem Sound.key?_of_lookup (hs : p.Sound s) {k : Key} (hk : s.lookup k = some n) :
    s.key? n = some k := by
  obtain ⟨node, hn, rfl⟩ := (hs.lookup_iff k n).mp hk
  rw [Store.key?, hn, Option.map_some]

/-- Where an edge of a node in a unit of modules leads, and why: to what the unit itself defines, to
a base, to what declares a slot, or where the body of the node says. -/
theorem edges_boundary (hs : p.Bound s) {ids : List ModuleId} (hunit : p.unit = .modules ids)
    {es : List Edge} (hrun : (p.edges n).run s = (.ok es, s')) {e : Edge} (he : e ∈ es) :
    ∃ node k, s'.node? n = some node ∧ s'.key? e.target = some k ∧
      ((∃ r ∈ node.found, r.reason = e.reason ∧ p.key r.target = k) ∨ k.isLocal ∨
        (e.reason = "base type" ∧ ∃ t, node.key = .typeDescriptor t) ∨
          (e.reason = "declaring type" ∧ ∃ m, node.key = .virtualMethodUse m)) := by
  have hlater : p.Bound s' := by
    have hlater := hs.perform (o := .edges n) trivial
    rwa [perform, hrun] at hlater
  obtain ⟨-, node, own, hn, hown, -, hes⟩ := (edges_does n s).of_run hrun
  obtain ⟨r, hr, hedge⟩ := exists_mem_left hes e he
  refine ⟨node, _, hn, hlater.sound.key?_of_lookup hedge.serves.lookup, ?_⟩
  rcases List.mem_append.mp hr with hr | hr
  · have hk : (CompilationUnit.modules ids).Binds p.world node.key := by
      rw [← hunit]
      refine hlater.binds _ (Option.isSome_iff_exists.mpr ⟨n, ?_⟩)
      exact (hlater.sound.lookup_iff _ n).mpr ⟨node, hn, rfl⟩
    rw [hedge.reason, key, hunit]
    exact .inr (CompilationUnit.references_isLocal hk hown r hr)
  · exact .inl ⟨r, hr, hedge.reason.symm, rfl⟩

/-- Links, symbols and data have no edges, and asking for them does nothing. -/
theorem queries_leaf {node : Node} (hn : s.node? n = some node)
    (hk : node.key.isLink ∨ ¬ node.key.isMangled) :
    (p.edges n).run s = (.ok [], s) ∧ (p.conditional n).run s = (.ok [], s) := by
  have hown : p.world.references node.key = .ok [] := by
    cases hkey : node.key <;> simp_all [Key.isLink, Key.isMangled, World.references]
  have hoverrides : p.world.overridesOf node.key = .ok [] := by
    cases hkey : node.key <;> simp_all [Key.isLink, Key.isMangled, World.overridesOf]
  have hbody : p.bodyReferences n node = pure [] := by
    unfold bodyReferences
    split
    · simp_all [Key.isLink, Key.isMangled]
    · rfl
  constructor
  · rw [edges_run hn hown, hbody]
    rfl
  · rw [conditional, run_bind, node_run, hn, Option.elim]
    dsimp only
    rw [hoverrides]
    rfl

end Program

end AheadOfTime
