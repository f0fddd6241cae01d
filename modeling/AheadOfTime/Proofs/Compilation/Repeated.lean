import AheadOfTime.Proofs.Compilation.Parallel
import AheadOfTime.Proofs.Node.Repeated

/-! Runs that are made again. A run leaves nodes, contents of blobs and bodies behind, also those
that a failure or a wave made for nothing. The next run finds them, and comes to the same: it makes
no node and calls no backend if the first run came through, and fails alike if it failed. A walk in
waves asks on after a failure, though, so a handle that had no node when the run failed may have one
when it is made again. -/

namespace AheadOfTime

/-- The error says that a handle has no node. -/
def Compilation.Error.IsForeign : Compilation.Error → Prop
  | .walk e => ∃ handle, e.cause = .unresolved handle none .foreignNode
  | _ => False

namespace Program

variable {β : Type} {p : Program β} {s t : Store β} {level : TrackingLevel} {roots : List Root}

theorem Matches.grows {o o' : Outcome (Store β) NodeError} (h : p.graph.Matches o o') :
    o'.state.Grows o.state := by
  cases h with
  | through ha hab =>
    have hstate := congrArg Outcome.state hab
    change o.state = o'.state at hstate
    rw [hstate]
    exact .refl _
  | stopped q cause hwalk ha hb hasked hreach =>
    exact hreach.keeps (J := o'.state.Grows) (fun s' hs' n => hs'.trans (p.query_steps n s').grows)
      (.refl _)

/-- A handle goes by the same name later, unless it has got a node since. -/
theorem name_eq (hg : s.Grows t) {n : NodeId} (hn : n ∈ existing s ∨ n ∉ existing t) :
    t.name n = s.name n := by
  rcases hn with hn | hn
  · exact hg.name_eq hn
  · have hnone : t.node? n = none := by simpa [existing] using hn
    have hnone' : s.node? n = none := by simpa [existing] using fun h => hn (existing_mono hg h)
    simp only [Store.name, hnone, hnone']

/-- A walk one by one stops at a node that exists, or at a root. -/
theorem drain_stopped_root (hs : p.Sound s) {o : Outcome (Store β) NodeError}
    (ho : o = p.graph.drain (.ofRoots level roots) s) {q : Candidate} (hq : q ∈ o.walk.pending) :
    q.node ∈ existing o.state ∨ ∃ root ∈ roots, root.node = q.node := by
  have hsteps : p.Steps s o.state := ho ▸ drain_steps _ s
  have hmoves : Walk.Moves (p.Answered o.state) (.ofRoots level roots) o.walk := by
    rw [ho]
    exact (p.graph_answers.drain_moves hs).mono fun n deps h => h deps rfl
  have hunder : ClosedUnder (p.Answered o.state)
      (existing o.state ∪ {n | ∃ root ∈ roots, root.node = n}) := by
    have hclosed := (hs.steps hsteps).closedUnder_existing
    refine ⟨fun _ ha e he => .inl (hclosed.edges ha.existing ha e he), fun _ ha e he _ => .inl ?_⟩
    obtain ⟨-, ⟨node, overrides, -, -, hes⟩⟩ := ha
    obtain ⟨r, -, hedge⟩ := exists_mem_left hes e he
    exact (hs.steps hsteps).existing_of_lookup hedge.target
  have hrooted : ∀ root ∈ roots,
      root.node ∈ existing o.state ∪ {n | ∃ root ∈ roots, root.node = n} :=
    fun root hroot => .inr ⟨root, hroot, rfl⟩
  exact ((Walk.within_ofRoots level hrooted).moves hunder hmoves).pending q hq

/-- Failures at one mark that are told at two times tell the same, if its node existed the first time
or came into being at neither. -/
theorem failure_eq_later (hs : p.Sound s) {o : Outcome (Store β) NodeError}
    (ho : o = p.graph.drain (.ofRoots level roots) s) {q : Candidate} {cause : NodeError}
    (hstopped : p.graph.StoppedAt q cause o)
    (hasked : ∃ s₀, p.graph.query q.node s₀ = (.error cause, o.state)) {v : Walk}
    (hv : v.apartFromWaves = o.walk.apartFromWaves) (hg : o.state.Grows t)
    (hsettled : q.node ∈ existing o.state ∨ q.node ∉ existing t) (cause' : NodeError) :
    v.failure t.name q cause' = o.walk.failure o.state.name q cause' := by
  obtain ⟨hsourced, hmem, hmarked, -, -⟩ := drain_stopped hs ho hstopped hasked
  exact (hsourced.failure_eq hv hmem (fun n hn => hg.name_eq (hmarked n hn)) cause').2
    (name_eq hg hsettled)

/-- The node of the mark at which a walk stopped exists, or has not come into being later, unless it
was a root without a node and got one. -/
theorem stopped_settled (hs : p.Sound s) {o : Outcome (Store β) NodeError}
    (ho : o = p.graph.drain (.ofRoots level roots) s) {q : Candidate} {cause : NodeError}
    (hstopped : p.graph.StoppedAt q cause o)
    (hasked : ∃ s₀, p.graph.query q.node s₀ = (.error cause, o.state))
    (hnode : (∀ handle, cause ≠ .unresolved handle none .foreignNode) ∨
      ∀ root ∈ roots, root.node ∈ existing s ∨ root.node ∉ existing t) :
    q.node ∈ existing o.state ∨ q.node ∉ existing t := by
  obtain ⟨-, hmem, -, hforeign, -⟩ := drain_stopped hs ho hstopped hasked
  rcases hnode with hown | hroots
  · exact .inl (by_contra fun hnone => hown _ (hforeign hnone))
  · rcases drain_stopped_root hs ho hmem with hin | ⟨root, hroot, hsame⟩
    · exact .inl hin
    · have hsteps : p.Steps s o.state := ho ▸ drain_steps _ s
      exact hsame ▸ (hroots root hroot).imp_left (existing_mono hsteps.grows ·)

/-- A walk one by one that failed fails alike, unless it failed at a handle that has got a node
since. -/
theorem drain_fails_again (hsteady : p.backend.Steady) (hs : p.Settled s) (ht : p.Settled t)
    {o : Outcome (Store β) NodeError} (ho : o = p.graph.drain (.ofRoots level roots) s)
    (hg : o.state.Grows t) {e : WalkError NodeError} (he : o.error = some e)
    (hsettled : ∀ q rest, o.walk.pending = q :: rest →
      q.node ∈ existing o.state ∨ q.node ∉ existing t) :
    ∃ b, p.graph.drain (.ofRoots level roots) t = ⟨o.walk, { t with backend := b }, some e⟩ := by
  obtain ⟨q, rest, cause, s', hpending, hq, hs', hquery, he'⟩ :=
    Graph.drain_stops (g := p.graph) (fun s hs n => hs.steps (p.query_steps n s)) hs (ho ▸ he)
  rw [← ho] at hpending hq hquery he'
  have hstopped : p.graph.StoppedAt q cause o := ⟨⟨rest, hpending⟩, he.trans (congrArg some he')⟩
  have hnode := hsettled q rest hpending
  obtain ⟨b, hagain⟩ := query_fails_again hsteady hs' ht hquery hg hnode
  have hfailure :=
    failure_eq_later hs.sound ho hstopped ⟨s', hquery⟩ (v := o.walk) rfl hg hnode cause
  refine ⟨b, ?_⟩
  rw [(graph_repeats hsteady).drain_again hs ht (ho ▸ hg), ← ho,
    Graph.drain_fail _ hpending hq hagain, he']
  exact congrArg (fun e => (⟨o.walk, { t with backend := b }, some e⟩ : Outcome _ _)) hfailure

/-- So does a walk in waves that is made again where it stopped. It has asked on after it failed, so
that the handle at which it failed may have got a node. -/
theorem drainWaves_fails_again (hsteady : p.backend.Steady) (hs : p.Settled s)
    {o later : Outcome (Store β) NodeError}
    (ho : o = p.graph.drainWaves (.ofRoots level roots) s)
    (hlater : later = p.graph.drainWaves (.ofRoots level roots) o.state)
    {e : WalkError NodeError} (he : o.error = some e)
    (hnode : ¬ (Compilation.Error.walk e).IsForeign ∨
      ∀ root ∈ roots, root.node ∈ existing s ∨ root.node ∉ existing later.state) :
    later.error = some e := by
  have hgrowing (s₀ : Store β) : p.graph.Keeps s₀.Grows :=
    fun s' hs' n => hs'.trans (p.query_steps n s').grows
  have ht : p.Settled o.state := by
    rw [ho]
    exact Graph.drainWaves_keeps (fun s hs n => hs.steps (p.query_steps n s)) hs
  have hlast : o.state.Grows later.state := by
    rw [hlater]
    exact Graph.drainWaves_keeps (hgrowing o.state) (.refl _)
  have hmatches := p.graph.drainWaves_matches (.ofRoots level roots) s
  have hmatches' := p.graph.drainWaves_matches (.ofRoots level roots) o.state
  rw [← ho] at hmatches
  rw [← hlater] at hmatches'
  have hgrows := Matches.grows hmatches
  generalize hsingle : p.graph.drain (.ofRoots level roots) s = single at hmatches hgrows
  cases hmatches with
  | through hnone => cases hnone.symm.trans he
  | stopped q cause hwalk hstopped hstopped' hasked hreach =>
  obtain rfl := Option.some.inj (he.symm.trans hstopped.error)
  have hsettled : q.node ∈ existing single.state ∨ q.node ∉ existing later.state :=
    stopped_settled hs.sound hsingle.symm hstopped' hasked
      (hnode.imp_left fun hown handle hcause => hown ⟨handle, hcause⟩)
  have hsettled' : q.node ∈ existing single.state ∨ q.node ∉ existing o.state :=
    hsettled.imp_right fun hout hin => hout (existing_mono hlast hin)
  obtain ⟨rest, hpending⟩ := hstopped'.pending
  obtain ⟨b, hagain⟩ := drain_fails_again hsteady hs ht hsingle.symm hgrows hstopped'.error
    fun q' rest' hpending' => by
      cases hpending.symm.trans hpending'
      exact hsettled'
  rw [hagain] at hmatches'
  cases hmatches' with
  | through hnone hsame => cases (congrArg Outcome.error hsame).symm.trans hnone
  | stopped q' cause' hwalk' hstop hstop' =>
  obtain ⟨rest', hpending'⟩ := hstop'.pending
  cases hpending.symm.trans hpending'
  have hsame : single.walk.failure o.state.name q cause' =
      single.walk.failure single.state.name q cause' :=
    failure_eq_later hs.sound hsingle.symm hstopped' hasked rfl hgrows hsettled' cause'
  calc later.error
      = some (later.walk.failure later.state.name q cause') := hstop.error
    _ = some (single.walk.failure single.state.name q cause') :=
        congrArg some (failure_eq_later hs.sound hsingle.symm hstopped' hasked hwalk'
          (hgrows.trans hlast) hsettled cause')
    _ = some (single.walk.failure single.state.name q cause) :=
        (congrArg some hsame).symm.trans hstop'.error.symm
    _ = some (o.walk.failure o.state.name q cause) :=
        (congrArg some (failure_eq_later hs.sound hsingle.symm hstopped' hasked hwalk hgrows
          hsettled' cause)).symm

theorem walk_fails_again (hsteady : p.backend.Steady) (hs : p.Settled s) (inWaves : Bool)
    {o later : Outcome (Store β) NodeError}
    (ho : o = p.graph.walk inWaves (.ofRoots level roots) s)
    (hlater : later = p.graph.walk inWaves (.ofRoots level roots) o.state)
    {e : WalkError NodeError} (he : o.error = some e)
    (hnode : inWaves = false ∨ ¬ (Compilation.Error.walk e).IsForeign ∨
      ∀ root ∈ roots, root.node ∈ existing s ∨ root.node ∉ existing later.state) :
    later.error = some e := by
  cases inWaves with
  | true =>
    have hnode := hnode.resolve_left Bool.true_eq_false.mp
    exact drainWaves_fails_again hsteady hs ho hlater he hnode
  | false =>
    have ht : p.Settled o.state := by
      rw [ho]
      exact Graph.drain_keeps (fun s hs n => hs.steps (p.query_steps n s)) hs
    obtain ⟨b, hagain⟩ :=
      drain_fails_again hsteady hs ht ho (.refl _) he fun q _ _ => Classical.em _
    exact hlater ▸ congrArg Outcome.error hagain

end Program

namespace Compilation

variable {β : Type} {c : Compilation β} {x : Session β}

theorem settled_runs (hx : c.program.Settled x.store) (runs : Nat) :
    c.program.Settled ((fun x => (c.run x).2)^[runs] x).store := by
  induction runs generalizing x with
  | zero => exact hx
  | succ runs ih => exact ih (hx.steps (c.run_steps x))

/-- The roots of the next run are those of the last. -/
theorem gather_run (hx : c.program.Settled x.store) :
    c.program.gather c.roots (c.run x).2.store =
      { c.program.gather c.roots x.store with store := (c.run x).2.store } := by
  refine Program.gather_again hx (hx.steps (c.run_steps x)) ?_
  cases hgather : (c.program.gather c.roots x.store).error with
  | some e =>
    rw [run_of_gather_error hgather]
    exact .refl _
  | none =>
    rw [run_store hgather]
    exact (c.outcome_steps x.store).grows

/-- Once the roots are gathered, the next run walks from them on the store that the last left. -/
theorem run_run (hx : c.program.Settled x.store)
    (hgather : (c.program.gather c.roots x.store).error = none) :
    c.run (c.run x).2 = c.conclude (c.run x).2
      (c.walk (c.program.gather c.roots x.store).roots (c.outcome x.store).state) := by
  have hagain := gather_run hx
  rw [run_eq (by rw [hagain]; exact hgather), outcome, hagain, run_store hgather]

/-- A run that came through comes through again, with the same results, and leaves the store
alone. -/
theorem run_again (hsteady : c.program.backend.Steady) (hx : c.program.Settled x.store)
    {r : Results} (h : (c.run x).1 = .ok r) :
    ∃ r', (c.run (c.run x).2).1 = .ok r' ∧ r' = { r with failures := r'.failures } ∧
      (c.run (c.run x).2).2.store = (c.run x).2.store := by
  obtain ⟨hgather, hwalk, -⟩ := run_ok h
  have hgathered := hx.steps (Program.gather_creates (p := c.program) c.roots x.store).steps
  have hlast := hgathered.steps (c.outcome_steps x.store)
  have hagain : c.walk (c.program.gather c.roots x.store).roots (c.outcome x.store).state =
      ⟨(c.outcome x.store).walk, (c.outcome x.store).state, none⟩ :=
    (Program.graph_repeats hsteady).walk_again c.parallel
      (w := .ofRoots c.tracking (c.program.gather c.roots x.store).roots) hgathered hlast hwalk
      (.refl _)
  rw [run_run hx hgather, hagain, conclude_store, run_store hgather]
  rw [run_eq hgather, conclude, hwalk] at h
  cases h
  exact ⟨_, rfl, rfl, rfl⟩

/-- No root that was given by its handle gets its node between two times: it has one when the roots
are gathered, or has none later. -/
def HandlesSettle (c : Compilation β) (s later : Store β) : Prop :=
  ∀ source ∈ c.roots, ∀ root ∈ source.givenRoots,
    root.node ∈ Program.existing (c.program.gather c.roots s).store ∨
      root.node ∉ Program.existing later

/-- A run that failed fails alike again, unless it went in waves and failed at a root that was given
by a handle, and the handle has got a node since. -/
theorem run_fails_again (hsteady : c.program.backend.Steady) (hx : c.program.Settled x.store)
    {e : Error} (h : (c.run x).1 = .error e)
    (hnode : c.parallel = false ∨ ¬ e.IsForeign ∨
      c.HandlesSettle x.store (c.run (c.run x).2).2.store) :
    (c.run (c.run x).2).1 = .error e := by
  cases hgather : (c.program.gather c.roots x.store).error with
  | some cause =>
    have hagain : (c.program.gather c.roots (c.run x).2.store).error = some cause := by
      rw [gather_run hx]
      exact hgather
    rw [run_of_gather_error hgather] at h
    rw [run_of_gather_error hagain]
    exact h
  | none =>
    cases hwalk : (c.outcome x.store).error with
    | none =>
      rw [run_eq hgather, conclude, hwalk] at h
      cases h
    | some cause =>
      have hgathered := hx.steps (Program.gather_creates (p := c.program) c.roots x.store).steps
      rw [run_eq hgather, conclude_error hwalk] at h
      cases h
      rw [run_run hx hgather, conclude_store] at hnode
      rw [run_run hx hgather]
      refine conclude_error (Program.walk_fails_again hsteady hgathered c.parallel rfl rfl hwalk
        (hnode.imp_right (.imp_right fun hsettle root hroot => ?_)))
      obtain ⟨source, hsource, hgiven | ⟨r, -, hfor⟩⟩ :=
        (Program.gather_rootsOf hgather).sourced root hroot
      · exact hsettle source hsource root hgiven
      · exact .inl (hgathered.sound.existing_of_lookup hfor.serves.lookup)

end Compilation

end AheadOfTime
