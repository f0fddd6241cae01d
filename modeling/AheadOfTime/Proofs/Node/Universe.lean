import AheadOfTime.Proofs.Marking.Termination
import AheadOfTime.Proofs.Node.Progress
import AheadOfTime.Proofs.World.WellFormed

/-! What questions to a program can ask for. A world has finitely many types and methods, and so
finitely many keys (`World.keys`); all other keys are those of requests that bodies or roots spell
out. No question leads out of these (`Encloses`), so the nodes of a program are as many at most, and
answers lead to handles below their number (`Confined.told`). -/

namespace AheadOfTime

/-- What a request is about. -/
def Request.entity : Request → Entity
  | .methodEntrypoint m | .virtualMethodUse m | .methodDictionary m => .method m
  | .typeHandle t | .typeDictionary t => .type t
  | .externSymbol name | .dataBlob name _ => .symbol name

/-- Wherever a request is bound, its key is about the same. -/
@[simp]
theorem CompilationUnit.entity_bind (u : CompilationUnit) (w : World) (r : Request) :
    (u.bind w r).entity = r.entity := by
  cases r with
  | methodEntrypoint m | typeHandle t | methodDictionary m | typeDictionary t =>
    rw [bind]
    split <;> rfl
  | virtualMethodUse m | externSymbol name | dataBlob name data => rfl

namespace World

/-- The entities of a world. Symbols belong to none. -/
def Has (w : World) : Entity → Prop
  | .method m => m.index < w.methods.size
  | .type t => t.index < w.types.size
  | .symbol _ => False

/-- The keys about the types and methods of a world. -/
def keys (w : World) : List Key :=
  ((List.range w.types.size).map TypeId.mk).flatMap (fun t =>
    [.typeDescriptor t, .importedTypeDescriptor t, .typeDictionary t, .importedTypeDictionary t]) ++
  ((List.range w.methods.size).map MethodId.mk).flatMap fun m =>
    [.methodEntrypoint m, .externMethod m, .virtualMethodUse m, .methodDictionary m,
      .importedMethodDictionary m]

variable {w : World} {k : Key}

theorem mem_keys : k ∈ w.keys ↔ w.Has k.entity := by
  have htype (t : TypeId) : (∃ i < w.types.size, ⟨i⟩ = t) ↔ t.index < w.types.size := by
    obtain ⟨i⟩ := t
    simp
  have hmethod (m : MethodId) : (∃ i < w.methods.size, ⟨i⟩ = m) ↔ m.index < w.methods.size := by
    obtain ⟨i⟩ := m
    simp
  cases k <;> simp [keys, Has, Key.entity, htype, hmethod]

/-- The references of a key are about types and methods of the world. -/
theorem WellFormed.has_of_references (hw : w.WellFormed) {own : List Reference}
    (h : w.references k = .ok own) : ∀ r ∈ own, w.Has r.target.entity := by
  intro r hr
  cases k with
  | methodEntrypoint m =>
    obtain ⟨info, hinfo, hown⟩ := Except.bind_eq_ok.mp h
    cases hown
    rcases List.mem_cons.mp hr with rfl | hr
    · exact exists_typeInfo.mp (hw.methods m info hinfo).owner
    · split at hr
      · cases hr
      · rw [List.mem_singleton.mp hr]
        exact exists_methodInfo.mp ⟨info, hinfo⟩
  | typeDescriptor t =>
    obtain ⟨info, hinfo, hown⟩ := Except.bind_eq_ok.mp h
    cases hown
    have ht : t.index < w.types.size := exists_typeInfo.mp ⟨info, hinfo⟩
    rcases List.mem_append.mp hr with hr | hr
    · obtain ⟨b, hb, rfl⟩ := List.mem_map.mp hr
      exact Nat.lt_trans ((hw.types t info hinfo).base b (Option.mem_toList.mp hb)) ht
    · split at hr
      · cases hr
      · rw [List.mem_singleton.mp hr]
        exact ht
  | virtualMethodUse m =>
    obtain ⟨info, hinfo, hown⟩ := Except.bind_eq_ok.mp h
    cases hown
    rw [List.mem_singleton.mp hr]
    exact exists_typeInfo.mp (hw.methods m info hinfo).owner
  | methodDictionary m =>
    obtain ⟨info, hinfo, hown⟩ := Except.bind_eq_ok.mp h
    cases hown
    obtain ⟨a, ha, rfl⟩ := List.mem_map.mp hr
    exact exists_typeInfo.mp ((hw.methods m info hinfo).args a ha)
  | typeDictionary t =>
    obtain ⟨info, hinfo, hown⟩ := Except.bind_eq_ok.mp h
    cases hown
    obtain ⟨a, ha, rfl⟩ := List.mem_map.mp hr
    exact Nat.lt_trans (args_lt hinfo a ha) (exists_typeInfo.mp ⟨info, hinfo⟩)
  | _ =>
    cases h
    cases hr

theorem WellFormed.has_of_overridesOf (hw : w.WellFormed) {overrides : List Override}
    (h : w.overridesOf k = .ok overrides) :
    ∀ o ∈ overrides, w.Has (.method o.declaration) ∧ w.Has (.method o.implementation) := by
  intro o ho
  cases k with
  | typeDescriptor t =>
    obtain ⟨info, hinfo, rfl⟩ := Except.map_eq_ok.mp h
    obtain ⟨d, hd, -⟩ := (hw.types t info hinfo).declaration o ho
    exact ⟨exists_methodInfo.mp ⟨d, hd⟩,
      exists_methodInfo.mp ((hw.types t info hinfo).implementation o ho)⟩
  | _ =>
    cases h
    cases ho

end World

/-- No nodes are added but those of a set of keys. -/
def Store.AddsOnly {β : Type} (K : Set Key) (s s' : Store β) : Prop :=
  ∀ k, (s'.lookup k).isSome → (s.lookup k).isSome ∨ k ∈ K

namespace Program

variable {β α γ : Type} {p : Program β} {s s' : Store β} {K : Set Key} {n : NodeId}
  {T T' : Store β → Store β → Prop}

theorem addsOnly_of_reflTransGen (h : Relation.ReflTransGen (Store.AddsOnly K) s s') :
    s.AddsOnly K s' := by
  induction h with
  | refl => exact fun k hk => .inl hk
  | tail _ h ih => exact fun k hk => (h k hk).elim (ih k) .inr

/-- Two things that are known of a piece of work. -/
theorem Does.with {x : Work β α} {Q R : α → Store β → Prop} (h : Does T s x Q)
    (h' : Does T' s x R) :
    Does T s x fun a s' => Relation.ReflTransGen T' s s' ∧ R a s' :=
  ⟨h.steps, fun ha => ⟨h'.steps, h'.gives ha⟩⟩

/-- A set that holds the keys of all that questions can ask for. -/
structure Encloses (p : Program β) (K : Set Key) : Prop where
  own : ∀ {k own}, p.world.references k = .ok own → ∀ r ∈ own, p.key r.target ∈ K
  body : ∀ {m b body b'}, p.backend.compile p.world p.settings m b = (.ok body, b') →
    ∀ r ∈ body.references, p.key r.target ∈ K
  overrides : ∀ {k overrides}, p.world.overridesOf k = .ok overrides → ∀ o ∈ overrides,
    p.key (.virtualMethodUse o.declaration) ∈ K ∧ p.key (.methodEntrypoint o.implementation) ∈ K

theorem Encloses.found (h : p.Encloses K) (hs : p.Sound s) {node : Node}
    (hn : s.node? n = some node) : ∀ r ∈ node.found, p.key r.target ∈ K := by
  intro r hr
  unfold Node.found at hr
  split at hr
  · rename_i m body hkey hbody
    obtain ⟨m', b, b', -, hb⟩ := hs.compiled n node body hn hbody
    exact h.body hb r hr
  · cases hr

theorem Encloses.asked_edges (h : p.Encloses K) (hs : p.Sound s) :
    ∀ r ∈ p.asked s (.edges n), p.key r ∈ K := by
  intro r hr
  simp only [asked] at hr
  split at hr
  · rename_i node hn
    obtain ⟨ref, href, rfl⟩ := List.mem_map.mp hr
    rcases List.mem_append.mp href with href | href
    · cases hown : p.world.references node.key with
      | ok own =>
        rw [hown] at href
        exact h.own hown ref href
      | error e =>
        rw [hown] at href
        cases href
    · exact h.found hs hn ref href
  · cases hr

theorem Encloses.asked_conditional (h : p.Encloses K) (s : Store β) :
    ∀ r ∈ p.asked s (.conditional n), p.key r ∈ K := by
  intro r hr
  simp only [asked] at hr
  split at hr
  · rename_i node hn
    obtain ⟨o, ho, hr⟩ := List.mem_flatMap.mp hr
    cases hoverrides : p.world.overridesOf node.key with
    | ok overrides =>
      rw [hoverrides] at ho
      obtain ⟨hcondition, htarget⟩ := h.overrides hoverrides o ho
      rcases List.mem_pair.mp hr with rfl | rfl
      · exact hcondition
      · exact htarget
    | error e =>
      rw [hoverrides] at ho
      cases ho
  · cases hr

theorem resolve_adds (requestedBy : Option NodeId) {r : Request} (hr : p.key r ∈ K)
    (s : Store β) : Does (Store.AddsOnly K) s (p.resolve requestedBy r) fun _ _ => True := by
  refine ⟨.single ?_, fun _ => trivial⟩
  rcases p.obtain_cases (p.key r) r.data requestedBy s with
    ⟨n, -, -, hrun⟩ | ⟨fault, hrun⟩ | ⟨n, name, hk, hn, hname, hrun⟩ <;>
    rw [resolve, ← key, hrun]
  · exact fun k hk => .inl hk
  · exact fun k hk => .inl hk
  · intro k hk'
    rw [Store.lookup_push] at hk'
    split at hk'
    · rename_i hkey
      exact .inr (hkey ▸ hr)
    · exact .inl hk'

theorem mapM_adds {f : α → Work β γ} {xs : List α}
    (hf : ∀ x ∈ xs, ∀ s, Does (Store.AddsOnly K) s (f x) fun _ _ => True) (s : Store β) :
    Does (Store.AddsOnly K) s (xs.mapM f) fun _ _ => True := by
  induction xs generalizing s with
  | nil => exact .pure trivial
  | cons x xs ih =>
    rw [List.mapM_cons]
    refine (hf x List.mem_cons_self s).bind fun y s₁ _ _ => ?_
    exact (ih (fun x hx => hf x (List.mem_cons_of_mem _ hx)) s₁).bind fun _ _ _ _ => .pure trivial

theorem mapM_edge_adds {rs : List Reference} (hrs : ∀ r ∈ rs, p.key r.target ∈ K) (s : Store β) :
    Does (Store.AddsOnly K) s (rs.mapM (p.edge n)) fun _ _ => True :=
  mapM_adds (fun r hr s => (resolve_adds (some n) (hrs r hr) s).bind fun _ _ _ _ => .pure trivial) s

theorem bodyReferences_adds (n : NodeId) (node : Node) (s : Store β) :
    Does (Store.AddsOnly K) s (p.bodyReferences n node) fun _ _ => True := by
  refine ⟨.single fun k hk => .inl ?_, fun _ => trivial⟩
  rwa [Store.lookup, bodyReferences_index] at hk

theorem edges_adds (h : p.Encloses K) (hs : p.Sound s) (n : NodeId) :
    Does (Store.AddsOnly K) s (p.edges n) fun _ _ => True := by
  refine (node_does n s).bind fun node _ _ ⟨heq, hn⟩ => ?_
  subst heq
  refine (ask_does _ _ _).bind fun own _ _ ⟨heq, hown⟩ => ?_
  subst heq
  refine ((mapM_edge_adds (h.own hown) _).with (mapM_edge_does own _)).bind
    fun ownEdges s₁ _ ⟨hsteps, hmade, _⟩ => ?_
  have hn₁ := hmade.node? hn
  refine ((bodyReferences_adds n node s₁).with (bodyReferences_does hn₁)).bind
    fun found s₂ _ ⟨hsteps', node', hn₂, _, _, hfound⟩ => ?_
  subst hfound
  have hs₂ : p.Sound s₂ := (hs.steps hsteps).steps hsteps'
  exact (mapM_edge_adds (h.found hs₂ hn₂) s₂).bind fun _ _ _ _ => .pure trivial

theorem conditional_adds (h : p.Encloses K) (n : NodeId) (s : Store β) :
    Does (Store.AddsOnly K) s (p.conditional n) fun _ _ => True := by
  refine (node_does n s).bind fun node s₁ _ _ => ?_
  refine (ask_does _ _ s₁).bind fun overrides s₂ _ ⟨_, hoverrides⟩ => ?_
  refine mapM_adds (fun o ho s => ?_) s₂
  obtain ⟨hcondition, htarget⟩ := h.overrides hoverrides o ho
  refine (resolve_adds (some n) hcondition s).bind fun _ s' _ _ => ?_
  exact (resolve_adds (some n) htarget s').bind fun _ _ _ _ => .pure trivial

theorem query_adds (h : p.Encloses K) (hs : p.Sound s) (n : NodeId) :
    s.AddsOnly K (p.graph.query n s).2 := by
  have hedges := edges_adds h hs n
  unfold Graph.query
  split
  · rename_i e s₁ hq
    have hsteps := hedges.steps
    rw [show (p.edges n).run s = (.error e, s₁) from hq] at hsteps
    exact addsOnly_of_reflTransGen hsteps
  · rename_i es s₁ hq
    have hsteps := hedges.steps
    rw [show (p.edges n).run s = (.ok es, s₁) from hq] at hsteps
    have hadds := addsOnly_of_reflTransGen (hsteps.trans (conditional_adds h n s₁).steps)
    split <;> rename_i hq'
    · exact (congrArg (s.AddsOnly K ·.2) hq').mp hadds
    · exact (congrArg (s.AddsOnly K ·.2) hq').mp hadds

/-- A store in order, all of whose keys are among some. -/
structure Confined (p : Program β) (K : List Key) (s : Store β) : Prop extends p.Settled s where
  keys : ∀ k, (s.lookup k).isSome → k ∈ K

variable {L : List Key}

theorem confined_empty (p : Program β) (L : List Key) (b : β) : p.Confined L (.empty b) :=
  ⟨p.settled_empty b, fun k hk => by simp [Store.lookup, Store.empty] at hk⟩

theorem Confined.steps (h : p.Confined L s) (hsteps : p.Steps s s')
    (hadds : s.AddsOnly {k | k ∈ L} s') : p.Confined L s' :=
  ⟨h.toSettled.steps hsteps, fun k hk => (hadds k hk).elim (h.keys k) id⟩

theorem Confined.query (henc : p.Encloses {k | k ∈ L}) : p.graph.Keeps (p.Confined L) :=
  fun s h n => h.steps (p.query_steps n s) (query_adds henc h.sound n)

/-- There is one node for each key, so there are no more nodes than keys. -/
theorem Confined.size_le_length (h : p.Confined L s) : s.size ≤ L.length := by
  have hguide := h.sound.guide h.size_le
  have hsub : slotKeys s ⊆ L := fun k hk => h.keys k (hguide.mem_slotKeys.mp hk)
  rw [← length_slotKeys s]
  exact (List.subperm_of_subset hguide.nodup_slotKeys hsub).length_le

theorem Confined.index_lt (h : p.Confined L s) {k : Key} (hk : s.lookup k = some n) :
    n.index < L.length := by
  obtain ⟨node, hn, -⟩ := (h.sound.lookup_iff k n).mp hk
  exact Nat.lt_of_lt_of_le (Array.getElem?_eq_some_iff.mp hn).1 h.size_le_length

/-- Answers lead to handles below the number of keys. -/
theorem Confined.told (henc : p.Encloses {k | k ∈ L}) {deps : Dependencies}
    (h : p.graph.Told (p.Confined L) n (.ok deps)) :
    (∀ e ∈ deps.edges, e.target.index < L.length) ∧
      ∀ e ∈ deps.conditional, e.target.index < L.length := by
  obtain ⟨s, hs, hq⟩ := h
  have hlater := Confined.query henc hs n
  obtain ⟨⟨node, own, -, -, -, hes⟩, ⟨node', overrides, -, -, hds⟩⟩ := answered_query hq
  refine ⟨fun e he => ?_, fun e he => ?_⟩
  · obtain ⟨r, -, hedge⟩ := exists_mem_left hes e he
    exact hlater.index_lt hedge.serves.lookup
  · obtain ⟨o, -, hedge⟩ := exists_mem_left hds e he
    exact hlater.index_lt hedge.target

/-- The keys of a world and those of the requests that are spelled out somewhere. -/
def allKeys (p : Program β) (told : List Reference) : List Key :=
  p.world.keys ++ told.map fun r => p.key r.target

theorem key_mem_allKeys (p : Program β) {told : List Reference} {r : Request}
    (h : p.world.Has r.entity) : p.key r ∈ p.allKeys told := by
  refine List.mem_append_left _ (World.mem_keys.mpr ?_)
  rwa [key, CompilationUnit.entity_bind]

theorem encloses_allKeys (hw : p.world.WellFormed) {told : List Reference}
    (hbody : ∀ {m b body b'}, p.backend.compile p.world p.settings m b = (.ok body, b') →
      body.references ⊆ told) : p.Encloses {k | k ∈ p.allKeys told} where
  own h r hr := p.key_mem_allKeys (hw.has_of_references h r hr)
  body h r hr := List.mem_append_right _ (List.mem_map.mpr ⟨r, hbody h hr, rfl⟩)
  overrides h o ho :=
    have hhas := hw.has_of_overridesOf h o ho
    ⟨p.key_mem_allKeys hhas.1, p.key_mem_allKeys hhas.2⟩

end Program

end AheadOfTime
