import AheadOfTime.Compilation.Basic
import AheadOfTime.Proofs.Except
import AheadOfTime.Proofs.Node.Answers

/-! How a run of a compilation goes when nothing goes wrong: the roots are the nodes that the
references of the sources are bound to, the walk leaves nothing pending, and the results show the
nodes that it marked. -/

namespace AheadOfTime

/-- Everything but nodes given by their handles. -/
def RootSource.IsBuiltIn : RootSource → Prop
  | .nodes _ => False
  | _ => True

theorem RootSource.IsBuiltIn.givenRoots {source : RootSource} (h : source.IsBuiltIn) :
    source.givenRoots = [] := by
  cases source with
  | nodes roots => exact h.elim
  | _ => rfl

namespace Program

variable {β : Type} {p : Program β} {s s' : Store β}

structure RootFor (p : Program β) (r : Reference) (root : Root) (s : Store β) : Prop where
  serves : p.Serves r.target root.node s
  reason : root.reason = r.reason

theorem RootFor.grows {r : Reference} {root : Root} (hg : s.Grows s') (h : p.RootFor r root s) :
    p.RootFor r root s' :=
  ⟨h.serves.grows hg, h.reason⟩

theorem resolveRoots_creates (rs : List Reference) (s : Store β) :
    p.Creates s (p.resolveRoots rs s).store ∧ ((p.resolveRoots rs s).error = none →
      List.Forall₂ (p.RootFor · · (p.resolveRoots rs s).store) rs (p.resolveRoots rs s).roots) := by
  induction rs generalizing s with
  | nil => exact ⟨.refl, fun _ => .nil⟩
  | cons r rs ih =>
    obtain ⟨hsteps, hgives⟩ := resolve_does (p := p) none r.target s
    unfold resolveRoots
    split
    · rename_i hrun
      rw [hrun] at hsteps
      exact ⟨hsteps, fun herror => (nomatch herror)⟩
    · rename_i n s₁ hrun
      rw [hrun] at hsteps hgives
      obtain ⟨hrest, hroots⟩ := ih s₁
      refine ⟨hsteps.trans hrest, fun herror => .cons ⟨?_, rfl⟩ (hroots herror)⟩
      exact (hgives rfl).grows (Creates.grows hrest)

theorem gather_creates (sources : List RootSource) (s : Store β) :
    p.Creates s (p.gather sources s).store := by
  induction sources generalizing s with
  | nil => exact .refl
  | cons source sources ih =>
    have hfound := (resolveRoots_creates (p := p) (source.references p.world) s).1
    unfold gather
    dsimp only
    split
    · exact hfound
    · exact hfound.trans (ih _)

/-- The roots of some sources are the nodes that they give and those that their references are bound
to. -/
structure RootsOf (p : Program β) (sources : List RootSource) (roots : List Root) (s : Store β) :
    Prop where
  given : ∀ source ∈ sources, ∀ root ∈ source.givenRoots, root ∈ roots
  asked : ∀ source ∈ sources, ∀ r ∈ source.references p.world, ∃ root ∈ roots, p.RootFor r root s
  sourced : ∀ root ∈ roots, ∃ source ∈ sources,
    root ∈ source.givenRoots ∨ ∃ r ∈ source.references p.world, p.RootFor r root s

theorem RootsOf.grows {sources : List RootSource} {roots : List Root} (hg : s.Grows s')
    (h : p.RootsOf sources roots s) : p.RootsOf sources roots s' := by
  refine ⟨h.given, fun source hsource r hr => ?_, fun root hroot => ?_⟩
  · obtain ⟨root, hroot, hfor⟩ := h.asked source hsource r hr
    exact ⟨root, hroot, hfor.grows hg⟩
  · obtain ⟨source, hsource, hgiven | ⟨r, hr, hfor⟩⟩ := h.sourced root hroot
    · exact ⟨source, hsource, .inl hgiven⟩
    · exact ⟨source, hsource, .inr ⟨r, hr, hfor.grows hg⟩⟩

theorem RootsOf.cons {source : RootSource} {sources : List RootSource} {found roots : List Root}
    (hfound : List.Forall₂ (p.RootFor · · s) (source.references p.world) found)
    (h : p.RootsOf sources roots s) :
    p.RootsOf (source :: sources) (source.givenRoots ++ found ++ roots) s := by
  refine ⟨fun x hx root hroot => ?_, fun x hx r hr => ?_, fun root hroot => ?_⟩
  · rcases List.mem_cons.mp hx with rfl | hx
    · simp [hroot]
    · simp [h.given x hx root hroot]
  · rcases List.mem_cons.mp hx with rfl | hx
    · obtain ⟨root, hroot, hfor⟩ := exists_mem_right hfound r hr
      exact ⟨root, by simp [hroot], hfor⟩
    · obtain ⟨root, hroot, hfor⟩ := h.asked x hx r hr
      exact ⟨root, by simp [hroot], hfor⟩
  · rcases List.mem_append.mp hroot with hroot | hroot
    · refine ⟨source, List.mem_cons_self, (List.mem_append.mp hroot).imp_right fun hroot => ?_⟩
      exact exists_mem_left hfound root hroot
    · obtain ⟨x, hx, hfrom⟩ := h.sourced root hroot
      exact ⟨x, List.mem_cons_of_mem _ hx, hfrom⟩

/-- Roots are the nodes that some references are bound to. -/
structure RootedBy (p : Program β) (rs : List Reference) (roots : List Root) (s : Store β) :
    Prop where
  asked : ∀ r ∈ rs, ∃ root ∈ roots, p.Serves r.target root.node s
  sourced : ∀ root ∈ roots, ∃ r ∈ rs, s.lookup (p.key r.target) = some root.node

theorem RootedBy.grows {rs : List Reference} {roots : List Root} (hg : s.Grows s')
    (h : p.RootedBy rs roots s) : p.RootedBy rs roots s' := by
  refine ⟨fun r hr => ?_, fun root hroot => ?_⟩
  · obtain ⟨root, hroot, hserves⟩ := h.asked r hr
    exact ⟨root, hroot, hserves.grows hg⟩
  · obtain ⟨r, hr, hlookup⟩ := h.sourced root hroot
    exact ⟨r, hr, hg.lookup _ _ hlookup⟩

/-- If the roots that are given by their handles are among those that are asked for, all are. -/
theorem RootsOf.rootedBy {sources : List RootSource} {roots : List Root}
    (h : p.RootsOf sources roots s)
    (hgiven : ∀ source ∈ sources, ∀ root ∈ source.givenRoots,
      ∃ r ∈ sources.flatMap (·.references p.world), s.lookup (p.key r.target) = some root.node) :
    p.RootedBy (sources.flatMap (·.references p.world)) roots s := by
  refine ⟨fun r hr => ?_, fun root hroot => ?_⟩
  · obtain ⟨source, hsource, hr⟩ := List.mem_flatMap.mp hr
    obtain ⟨root, hroot, hfor⟩ := h.asked source hsource r hr
    exact ⟨root, hroot, hfor.serves⟩
  · obtain ⟨source, hsource, hroot | ⟨r, hr, hfor⟩⟩ := h.sourced root hroot
    · exact hgiven source hsource root hroot
    · exact ⟨r, List.mem_flatMap.mpr ⟨source, hsource, hr⟩, hfor.serves.lookup⟩

theorem RootsOf.rootedBy_of_isBuiltIn {sources : List RootSource} {roots : List Root}
    (h : p.RootsOf sources roots s) (hsources : ∀ source ∈ sources, source.IsBuiltIn) :
    p.RootedBy (sources.flatMap (·.references p.world)) roots s := by
  refine h.rootedBy fun source hsource root hroot => ?_
  rw [(hsources source hsource).givenRoots] at hroot
  cases hroot

theorem gather_rootsOf {sources : List RootSource} {s : Store β}
    (herror : (p.gather sources s).error = none) :
    p.RootsOf sources (p.gather sources s).roots (p.gather sources s).store := by
  induction sources generalizing s with
  | nil => exact ⟨by simp, by simp, by simp [gather]⟩
  | cons source sources ih =>
    have hfound := (resolveRoots_creates (p := p) (source.references p.world) s).2
    unfold gather at herror ⊢
    dsimp only at herror ⊢
    split at herror
    · rename_i e he
      rw [he] at herror
      cases herror
    · rename_i he
      have hgrows := (gather_creates (p := p) sources (p.provide source s).store).grows
      exact (ih herror).cons ((hfound he).imp fun _ _ h => h.grows hgrows)

end Program

/-- A walk that has been asked for some roots. -/
def Walk.ofRoots (level : TrackingLevel) (roots : List Root) : Walk :=
  roots.foldl (fun w r => w.addRoot r.node r.reason) (.start level)

theorem Walk.ofRoots_concat (level : TrackingLevel) (roots : List Root) (r : Root) :
    ofRoots level (roots ++ [r]) = (ofRoots level roots).addRoot r.node r.reason := by
  rw [ofRoots, List.foldl_append]; rfl

theorem Walk.ofRoots_marked (level : TrackingLevel) (roots : List Root) :
    (Walk.ofRoots level roots).marked = [] := by
  have hroot (w : Walk) (r : Root) : (w.addRoot r.node r.reason).marked = w.marked := by
    rw [addRoot, enqueue_marked]
  exact foldl_marked hroot roots (.start level)

namespace Compilation

variable {β : Type} {c : Compilation β} {x : Session β} {results : Results}

/-- Where the walk of a run ends. -/
def outcome (c : Compilation β) (s : Store β) : Outcome (Store β) NodeError :=
  c.walk (c.program.gather c.roots s).roots (c.program.gather c.roots s).store

/-- What a run makes of the outcome of its walk. -/
def conclude (c : Compilation β) (x : Session β) (o : Outcome (Store β) NodeError) :
    Except Error Results × Session β :=
  let transcript := x.transcript.say
    (toString (c.program.gather c.roots x.store).roots.length ++ " compilation roots")
  match o.error with
  | some e => (.error (.walk e), { x with store := o.state, transcript })
  | none =>
    let done := c.finish o.walk
      { x with
        store := o.state
        transcript := transcript.say (toString o.walk.counters.marked ++ " nodes marked, " ++
          toString o.walk.counters.edges ++ " edges visited") }
    (.ok done.1, done.2)

theorem run_eq (hgather : (c.program.gather c.roots x.store).error = none) :
    c.run x = c.conclude x (c.outcome x.store) := by
  unfold run
  dsimp only
  split
  · rename_i he
    rw [hgather] at he
    cases he
  · rfl

theorem run_of_gather_error {e : NodeError}
    (h : (c.program.gather c.roots x.store).error = some e) :
    c.run x = (.error (.roots e), { x with store := (c.program.gather c.roots x.store).store }) := by
  simp only [run, h]

theorem conclude_store (o : Outcome (Store β) NodeError) : (c.conclude x o).2.store = o.state := by
  unfold conclude
  split <;> rfl

theorem run_store (hgather : (c.program.gather c.roots x.store).error = none) :
    (c.run x).2.store = (c.outcome x.store).state := by
  rw [run_eq hgather, conclude_store]

theorem conclude_error {o : Outcome (Store β) NodeError} {e : WalkError NodeError}
    (h : o.error = some e) : (c.conclude x o).1 = .error (.walk e) := by
  unfold conclude
  rw [h]

theorem run_ok (h : (c.run x).1 = .ok results) :
    (c.program.gather c.roots x.store).error = none ∧ (c.outcome x.store).error = none ∧
      results.marked = resultNodes (c.outcome x.store).state (c.outcome x.store).walk.marked := by
  unfold run at h
  dsimp only at h
  split at h
  · cases h
  rename_i hgather
  split at h
  · cases h
  rename_i hwalk
  cases h
  exact ⟨hgather, hwalk, rfl⟩

/-- A run fails at its roots or in its walk. -/
theorem run_error {error : Error} (h : (c.run x).1 = .error error) :
    (∃ e, (c.program.gather c.roots x.store).error = some e ∧ error = .roots e) ∨
      (c.program.gather c.roots x.store).error = none ∧
        ∃ e, (c.outcome x.store).error = some e ∧ error = .walk e := by
  cases hgather : (c.program.gather c.roots x.store).error with
  | some e =>
    rw [run_of_gather_error hgather] at h
    exact .inl ⟨e, rfl, (Except.error.inj h).symm⟩
  | none =>
    rw [run_eq hgather] at h
    cases hwalk : (c.outcome x.store).error with
    | none =>
      rw [conclude, hwalk] at h
      cases h
    | some e =>
      rw [conclude_error hwalk] at h
      exact .inr ⟨rfl, e, rfl, (Except.error.inj h).symm⟩

/-- What else is made of the marked nodes. -/
theorem run_made (h : (c.run x).1 = .ok results) :
    results.folding = .of (c.outcome x.store).state (c.outcome x.store).walk.marked ∧
      results.metadata =
        .of c.program (c.outcome x.store).state (c.outcome x.store).walk.marked := by
  obtain ⟨hgather, hwalk, -⟩ := run_ok h
  rw [run_eq hgather, conclude, hwalk] at h
  cases h
  exact ⟨rfl, rfl⟩

/-- Nothing else can go wrong: a log that cannot be written does not end a run. -/
theorem exists_run_ok (hgather : (c.program.gather c.roots x.store).error = none)
    (hwalk : (c.outcome x.store).error = none) : ∃ results, (c.run x).1 = .ok results := by
  unfold outcome at hwalk
  unfold run
  dsimp only
  rw [hgather]
  dsimp only
  rw [hwalk]
  exact ⟨_, rfl⟩

theorem mem_resultNodes {s : Store β} {marked : List NodeId} {r : ResultNode} :
    r ∈ resultNodes s marked ↔
      ∃ n ∈ marked, ∃ node, s.node? n = some node ∧ r = ⟨n, node.name, node.key⟩ := by
  simp only [resultNodes, List.mem_filterMap, Option.map_eq_some_iff]
  refine exists_congr fun n => and_congr_right fun _ => exists_congr fun node => ?_
  rw [eq_comm (a := r)]

/-- How a run that succeeds has come to its results. -/
structure Finished (c : Compilation β) (x : Session β) (results : Results) : Prop where
  steps : c.program.Steps x.store (c.outcome x.store).state
  sound : c.program.Sound (c.outcome x.store).state
  roots : c.program.RootsOf c.roots (c.program.gather c.roots x.store).roots
    (c.outcome x.store).state
  moves : Walk.Moves (c.program.Answered (c.outcome x.store).state)
    (.ofRoots c.tracking (c.program.gather c.roots x.store).roots) (c.outcome x.store).walk
  pending : (c.outcome x.store).walk.pending = []
  marked : results.marked = resultNodes (c.outcome x.store).state (c.outcome x.store).walk.marked
  folding : results.folding = .of (c.outcome x.store).state (c.outcome x.store).walk.marked
  metadata : results.metadata =
    .of c.program (c.outcome x.store).state (c.outcome x.store).walk.marked

theorem outcome_steps (c : Compilation β) (s : Store β) :
    c.program.Steps (c.program.gather c.roots s).store (c.outcome s).state :=
  Graph.walk_keeps (fun s hs n => hs.trans (c.program.query_steps n s)) c.parallel .refl

/-- A run asks, and does nothing else to a store. -/
theorem run_steps (c : Compilation β) (x : Session β) :
    c.program.Steps x.store (c.run x).2.store := by
  have hmade := Program.Creates.steps (Program.gather_creates (p := c.program) c.roots x.store)
  cases hgather : (c.program.gather c.roots x.store).error with
  | some e => rwa [run_of_gather_error hgather]
  | none =>
    rw [run_eq hgather, conclude_store]
    exact hmade.trans (c.outcome_steps x.store)

theorem run_finished (hs : c.program.Sound x.store) (h : (c.run x).1 = .ok results) :
    c.Finished x results := by
  obtain ⟨hgather, hwalk, hmarked⟩ := run_ok h
  have hmade : c.program.Creates x.store (c.program.gather c.roots x.store).store :=
    Program.gather_creates c.roots x.store
  have hsound := hs.steps hmade.steps
  have hwalked := c.outcome_steps x.store
  have hmoves := c.program.graph_answers.walk_moves c.parallel
    (w := .ofRoots c.tracking (c.program.gather c.roots x.store).roots) hsound
  exact {
    steps := hmade.steps.trans hwalked
    sound := hsound.steps hwalked
    roots := (Program.gather_rootsOf hgather).grows hwalked.grows
    moves := hmoves.mono fun n deps ha => ha deps rfl
    pending := c.program.graph.pending_of_walk hwalk
    marked := hmarked
    folding := (run_made h).1
    metadata := (run_made h).2 }

end Compilation

end AheadOfTime
