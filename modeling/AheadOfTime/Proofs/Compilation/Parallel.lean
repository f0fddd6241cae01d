import AheadOfTime.Codegen.Scripted
import AheadOfTime.Proofs.Compilation.Closure
import AheadOfTime.Proofs.Marking.Origins
import AheadOfTime.Proofs.Marking.Waves
import AheadOfTime.World.Population
import Mathlib

/-! Compiling in waves against compiling one node at a time. Questions to a program are not pure,
but they come in the same order up to the first that fails, and what is asked beyond it only adds
nodes. So runs come to the same end and leave the same session; the one thing that a wave can change
in an error is how it names a handle that no node had when its question failed (`run_alike`). -/

namespace AheadOfTime

variable {β : Type}

theorem Store.Grows.name_eq {s s' : Store β} (hg : s.Grows s') {n : NodeId}
    (hn : (s.node? n).isSome) : s'.name n = s.name n := by
  obtain ⟨node, hn⟩ := Option.isSome_iff_exists.mp hn
  obtain ⟨body, hn', -⟩ := hg.nodes n node hn
  simp only [Store.name, hn, hn']

namespace Program

variable {p : Program β} {s s' : Store β} {n : NodeId}

/-- Nodes that exist. -/
def existing (s : Store β) : Set NodeId := {n | (s.node? n).isSome}

theorem Sound.existing_of_lookup (hs : p.Sound s) {k : Key} (h : s.lookup k = some n) :
    n ∈ existing s := by
  obtain ⟨node, hn, -⟩ := (hs.lookup_iff k n).mp h
  exact Option.isSome_iff_exists.mpr ⟨node, hn⟩

theorem existing_mono (hg : s.Grows s') : existing s ⊆ existing s' := by
  intro n hn
  obtain ⟨node, hn⟩ := Option.isSome_iff_exists.mp hn
  obtain ⟨body, hn', -⟩ := hg.nodes n node hn
  exact Option.isSome_iff_exists.mpr ⟨_, hn'⟩

theorem Answered.existing {deps : Dependencies} (h : p.Answered s n deps) : n ∈ existing s := by
  obtain ⟨node, -, hn, -⟩ := h.edges
  exact Option.isSome_iff_exists.mpr ⟨node, hn⟩

/-- Answers lead to nodes that exist. -/
theorem Sound.leadInto_existing (hs : p.Sound s) {deps : Dependencies} (h : p.Answered s n deps) :
    deps.LeadInto (Program.existing s) where
  edges e he := by
    obtain ⟨node, own, -, -, -, hes⟩ := h.edges
    obtain ⟨r, -, hedge⟩ := exists_mem_left hes e he
    exact hs.existing_of_lookup hedge.serves.lookup
  conditional e he := by
    obtain ⟨node, overrides, -, -, hes⟩ := h.conditional
    obtain ⟨o, -, hedge⟩ := exists_mem_left hes e he
    exact hs.existing_of_lookup hedge.target

theorem Sound.closedUnder_existing (hs : p.Sound s) :
    ClosedUnder (p.Answered s) (Program.existing s) where
  edges _ h := (hs.leadInto_existing h).edges
  conditional _ h e he _ := (hs.leadInto_existing h).conditional e he

theorem query_of_not_existing (hn : n ∉ existing s) :
    p.graph.query n s = (.error (.unresolved n.label none .foreignNode), s) :=
  query_of_not_exists (by simpa [existing] using hn)

end Program

/-- Results without the count of waves. -/
def Results.apartFromWaves (r : Results) : Results :=
  { r with counters := r.counters.apartFromWaves }

/-- Two errors tell the same, or tell that a handle had no node and differ in what they call it. -/
inductive Compilation.Error.Alike : Compilation.Error → Compilation.Error → Prop where
  | same (e : Compilation.Error) : Alike e e
  | foreign {e e' : WalkError NodeError} {handle : String} (hpath : e.path = e'.path)
    (hcause : e.cause = .unresolved handle none .foreignNode)
    (hcause' : e'.cause = .unresolved handle none .foreignNode) : Alike (.walk e) (.walk e')

namespace Compilation

variable {c : Compilation β} {s : Store β}

/-- Every root that is given by its handle is a node once the roots are gathered. Sources of the
built-in kinds give none. -/
def HandlesExist (c : Compilation β) (s : Store β) : Prop :=
  ∀ source ∈ c.roots, ∀ root ∈ source.givenRoots,
    root.node ∈ Program.existing (c.program.gather c.roots s).store

theorem handlesExist_of_isBuiltIn (h : ∀ source ∈ c.roots, source.IsBuiltIn) :
    c.HandlesExist s := by
  intro source hsource root hroot
  rw [(h source hsource).givenRoots] at hroot
  cases hroot

theorem HandlesExist.roots (h : c.HandlesExist s) (hs : c.program.Sound s)
    (herror : (c.program.gather c.roots s).error = none) :
    ∀ root ∈ (c.program.gather c.roots s).roots,
      root.node ∈ Program.existing (c.program.gather c.roots s).store := by
  intro root hroot
  have hsound := hs.steps (Program.gather_creates (p := c.program) c.roots s).steps
  obtain ⟨source, hsource, hgiven | ⟨r, -, hfor⟩⟩ :=
    (Program.gather_rootsOf herror).sourced root hroot
  · exact h source hsource root hgiven
  · exact hsound.existing_of_lookup hfor.serves.lookup

end Compilation

theorem Walk.sourced_ofRoots (level : TrackingLevel) (roots : List Root) :
    (ofRoots level roots).Sourced := by
  induction roots using List.reverseRecOn with
  | nil => exact sourced_start level
  | append_singleton roots r ih =>
    rw [ofRoots_concat]
    exact ih.addRoot r.node r.reason

/-- Two walks that stopped at one mark tell the same of it if they agree on the names of marked
nodes, and on that of the node itself. -/
theorem Walk.Sourced.failure_eq {ε : Type} {v w : Walk} (h : w.Sourced)
    (hwalk : v.apartFromWaves = w.apartFromWaves) {q : Candidate} (hq : q ∈ w.pending)
    {name name' : NodeId → String} (hnames : ∀ n ∈ w.marked, name n = name' n) (cause : ε) :
    (v.failure name q cause).path = (w.failure name' q cause).path ∧
      (name q.node = name' q.node → v.failure name q cause = w.failure name' q cause) := by
  have hrecord : v.record = w.record := by
    have := congrArg Walk.record hwalk
    exact this
  have hpath := h.path_eq hq hnames cause
  rw [Walk.failure_eq hrecord]
  refine ⟨hpath, fun hnode => ?_⟩
  simp only [failure] at hpath ⊢
  rw [hpath, hnode]

namespace Program

variable {p : Program β} {level : TrackingLevel} {roots : List Root} {s : Store β}

theorem drain_steps (w : Walk) (s : Store β) : p.Steps s (p.graph.drain w s).state :=
  Graph.drain_keeps (fun s' hs' n => hs'.trans (p.query_steps n s')) .refl

/-- When a walk one by one has failed, the nodes that it has marked exist, and so does the node of
the mark that failed, unless that is why. -/
theorem drain_stopped (hs : p.Sound s) {o : Outcome (Store β) NodeError}
    (ho : o = p.graph.drain (.ofRoots level roots) s) {q : Candidate} {cause : NodeError}
    (hstopped : p.graph.StoppedAt q cause o)
    (hasked : ∃ s₀, p.graph.query q.node s₀ = (.error cause, o.state)) :
    o.walk.Sourced ∧ q ∈ o.walk.pending ∧ (∀ n ∈ o.walk.marked, n ∈ existing o.state) ∧
      (q.node ∉ existing o.state → cause = .unresolved q.node.label none .foreignNode) ∧
      ((∀ root ∈ roots, root.node ∈ existing s) → q.node ∈ existing o.state) := by
  have hsteps : p.Steps s o.state := ho ▸ drain_steps _ s
  have hmoves : Walk.Moves (p.Answered o.state) (.ofRoots level roots) o.walk := by
    rw [ho]
    exact (p.graph_answers.drain_moves hs).mono fun n deps h => h deps rfl
  have hpending : q ∈ o.walk.pending := by
    obtain ⟨rest, hrest⟩ := hstopped.pending
    rw [hrest]
    exact List.mem_cons_self
  refine ⟨(Walk.sourced_ofRoots level roots).moves hmoves, hpending, fun n hn => ?_, fun hq => ?_,
    fun hexist => ?_⟩
  · obtain ⟨deps, hanswer, -⟩ := ((Walk.complete_ofRoots _ level roots).moves hmoves).settled n hn
    exact hanswer.existing
  · obtain ⟨s₀, hquery⟩ := hasked
    have hgrows := (p.query_steps q.node s₀).grows
    rw [hquery] at hgrows
    rw [query_of_not_existing fun h => hq (existing_mono hgrows h)] at hquery
    cases hquery
    rfl
  · have hrooted : ∀ root ∈ roots, root.node ∈ existing o.state :=
      fun root hroot => existing_mono hsteps.grows (hexist root hroot)
    have hunder := (hs.steps hsteps).closedUnder_existing
    exact ((Walk.within_ofRoots level hrooted).moves hunder hmoves).pending q hpending

/-- The errors of the two kinds of walk. -/
theorem errors_alike (hs : p.Sound s) {o o' : Outcome (Store β) NodeError}
    (ho' : o' = p.graph.drain (.ofRoots level roots) s) (h : p.graph.Matches o o') :
    (o.error = none ∧ o.apartFromWaves = o'.apartFromWaves) ∨
      ∃ e e', o.error = some e ∧ o'.error = some e' ∧
        (Compilation.Error.walk e).Alike (.walk e') ∧
        ((∀ root ∈ roots, root.node ∈ existing s) → e = e') := by
  cases h with
  | through herror hsame => exact .inl ⟨herror, hsame⟩
  | stopped q cause hwalk hstopped hstopped' hasked hreach =>
    obtain ⟨hsourced, hpending, hmarked, hforeign, hexists⟩ := drain_stopped hs ho' hstopped' hasked
    have hlater : p.Steps o'.state o.state :=
      hreach.keeps (fun s' hs' n => hs'.trans (p.query_steps n s')) .refl
    have hname {n : NodeId} (hn : n ∈ existing o'.state) :
        p.graph.name o.state n = p.graph.name o'.state n :=
      hlater.grows.name_eq hn
    obtain ⟨hpath, hsame⟩ :=
      hsourced.failure_eq hwalk hpending (fun n hn => hname (hmarked n hn)) cause
    refine .inr ⟨_, _, hstopped.error, hstopped'.error, ?_, fun hroots => ?_⟩
    · by_cases hq : q.node ∈ existing o'.state
      · rw [hsame (hname hq)]
        exact .same _
      · obtain rfl := hforeign hq
        exact .foreign hpath rfl rfl
    · exact hsame (hname (hexists hroots))

end Program

namespace Compilation

variable {c : Compilation β} {x : Session β}

/-- What comes after a walk does not look at the count of waves either. -/
theorem conclude_apartFromWaves {o o' : Outcome (Store β) NodeError} (h : o.error = none)
    (hsame : o.apartFromWaves = o'.apartFromWaves) :
    ∃ r r', (c.conclude x o).1 = .ok r ∧ (c.conclude x o').1 = .ok r' ∧
      r.apartFromWaves = r'.apartFromWaves ∧ (c.conclude x o).2 = (c.conclude x o').2 := by
  obtain ⟨⟨_, _, _, ⟨⟩, _⟩, _, _⟩ := o
  obtain ⟨⟨_, _, _, ⟨⟩, _⟩, _, _⟩ := o'
  simp only [Outcome.apartFromWaves, Walk.apartFromWaves, Counters.apartFromWaves,
    Outcome.mk.injEq, Walk.mk.injEq, Counters.mk.injEq] at h hsame
  obtain ⟨⟨rfl, rfl, rfl, ⟨rfl, rfl, rfl, rfl, -⟩, rfl⟩, rfl, rfl⟩ := hsame
  subst h
  exact ⟨_, _, rfl, rfl, rfl, rfl⟩

/-- A run in waves and one that takes nodes one by one, in a session whose store is in order. -/
theorem run_alike_of_sound (c : Compilation β) (hs : c.program.Sound x.store) :
    let waves := { c with parallel := true }.run x
    let single := { c with parallel := false }.run x
    (∃ r r', waves.1 = .ok r ∧ single.1 = .ok r' ∧ r.apartFromWaves = r'.apartFromWaves ∧
      waves.2 = single.2) ∨
    ∃ e e', waves.1 = .error e ∧ single.1 = .error e' ∧ e.Alike e' ∧
      (c.HandlesExist x.store → e = e') := by
  intro waves single
  cases hgather : (c.program.gather c.roots x.store).error with
  | some e =>
    refine .inr ⟨.roots e, .roots e, ?_, ?_, .same _, fun _ => rfl⟩
    · simp only [waves, run, hgather]
    · simp only [single, run, hgather]
  | none =>
    have hsound := hs.steps (Program.gather_creates (p := c.program) c.roots x.store).steps
    have hmatches := c.program.graph.drainWaves_matches
      (.ofRoots c.tracking (c.program.gather c.roots x.store).roots)
      (c.program.gather c.roots x.store).store
    have hwaves : waves = c.conclude x _ := run_eq (c := { c with parallel := true }) hgather
    have hsingle : single = c.conclude x _ := run_eq (c := { c with parallel := false }) hgather
    rw [hwaves, hsingle]
    rcases Program.errors_alike hsound rfl hmatches with
      ⟨herror, hsame⟩ | ⟨e, e', he, he', halike, hroots⟩
    · exact .inl (conclude_apartFromWaves herror hsame)
    · refine .inr ⟨.walk e, .walk e', conclude_error he, conclude_error he', halike, fun h => ?_⟩
      rw [hroots (h.roots hs hgather)]

/-- From nothing, a run in waves and one that takes nodes one by one have the same results up to the
count of waves, and leave the same nodes, calls of the backend, files and transcript; or both fail
alike, and in the same way if every root that is given by its handle is a node by then. -/
theorem run_alike (c : Compilation β) (b : β) (files : Files.Tree) (transcript : Transcript) :
    let waves := { c with parallel := true }.run ⟨.empty b, files, transcript⟩
    let single := { c with parallel := false }.run ⟨.empty b, files, transcript⟩
    (∃ r r', waves.1 = .ok r ∧ single.1 = .ok r' ∧ r.apartFromWaves = r'.apartFromWaves ∧
      waves.2 = single.2) ∨
    ∃ e e', waves.1 = .error e ∧ single.1 = .error e' ∧ e.Alike e' ∧
      (c.HandlesExist (.empty b) → e = e') :=
  run_alike_of_sound c (c.program.sound_empty b)

/-- A run whose first wave fails. -/
theorem run_of_wave_error {e : WalkError NodeError}
    (hgather : (c.program.gather c.roots x.store).error = none)
    (he : (c.program.graph.wave (.ofRoots c.tracking (c.program.gather c.roots x.store).roots)
      (c.program.gather c.roots x.store).store).error = some e) :
    ({ c with parallel := true }.run x).1 = .error (.walk e) := by
  rw [run_eq (c := { c with parallel := true }) hgather]
  exact conclude_error ((congrArg Outcome.error (Graph.drainWaves_of_error _ he)).trans he)

/-- A program of one method, compiled by scripts. -/
def oneMethod (scripts : List (MethodId × Script)) : Program CallLog where
  world := .populated [.module ⟨"App", ⟨1, 0, 0, 0⟩, [], "", 0, []⟩, .type ⟨0⟩ "" "Program" 0 none,
    .method ⟨0⟩ "Main" 0 false]
  unit := .modules [⟨0⟩]
  backend := Script.backend scripts
  settings := ⟨.blended, false, []⟩

/-- The method cannot be compiled. -/
def stuck : Compilation CallLog where
  program := oneMethod [(⟨0⟩, .fail (.unsupported "no body"))]
  tracking := .first
  roots := [.entryPoint ⟨0⟩, .explicit [⟨.externSymbol "puts", "call"⟩]]
  metadataLog := none
  dependencyLog := none
  parallel := false

theorem run_alike_stuck :
    stuck.HandlesExist (.empty .empty) ∧
    ∃ e, ({ stuck with parallel := true }.run ⟨.empty .empty, ⟨[], []⟩, .silent⟩).1 = .error e ∧
      ({ stuck with parallel := false }.run ⟨.empty .empty, ⟨[], []⟩, .silent⟩).1 = .error e ∧
      e.message = "cannot compute dependencies of `_ilc_App$$Program$$Main` " ++
        "(reached via root (entry point))" := by
  have hexist : stuck.HandlesExist (.empty .empty) :=
    handlesExist_of_isBuiltIn (by simp [stuck, RootSource.IsBuiltIn])
  have hwaves : ({ stuck with parallel := true }.run ⟨.empty .empty, ⟨[], []⟩, .silent⟩).1 =
      .error (.walk ⟨"_ilc_App$$Program$$Main", ["root (entry point)"],
        .codegen "_ilc_App$$Program$$Main" (.unsupported "no body")⟩) :=
    run_of_wave_error (by cbv) (by cbv)
  rcases run_alike stuck .empty ⟨[], []⟩ .silent with
    ⟨r, r', hr, -⟩ | ⟨e, e', he, he', -, hsame⟩
  · rw [hwaves] at hr
    cases hr
  · obtain rfl := hsame hexist
    refine ⟨hexist, e, he, he', ?_⟩
    rw [hwaves] at he
    cases he
    rfl

/-- A root by its handle, before the method. -/
def lateHandle (n : NodeId) : Compilation CallLog where
  program := oneMethod []
  tracking := .none
  roots := [.nodes [⟨n, "raw"⟩], .entryPoint ⟨0⟩]
  metadataLog := none
  dependencyLog := none
  parallel := false

/-- No node has the handle before the method is asked for its edges. In waves this happens before
the failure is told. -/
theorem errors_differ_lateHandle :
    let c := lateHandle ⟨1, by decide⟩
    ∃ e e', ({ c with parallel := true }.run ⟨.empty .empty, ⟨[], []⟩, .silent⟩).1 =
        .error (.walk e) ∧
      ({ c with parallel := false }.run ⟨.empty .empty, ⟨[], []⟩, .silent⟩).1 =
        .error (.walk e') ∧
      e.node = "_ilc_App$$Program$EEType" ∧ e'.node = "node#1" ∧ e ≠ e' := by
  refine ⟨⟨"_ilc_App$$Program$EEType", ["root (raw)"], .unresolved "node#1" none .foreignNode⟩,
    ⟨"node#1", ["root (raw)"], .unresolved "node#1" none .foreignNode⟩, ?_, ?_, rfl, rfl, ?_⟩
  · exact run_of_wave_error (by cbv) (by cbv)
  · cbv
  · simp

end Compilation

end AheadOfTime
