import AheadOfTime.Proofs.Compilation.Parallel
import AheadOfTime.Proofs.Marking.Tracking

/-! The tracking level is a matter of diagnostics alone. Compilations that differ in it make the same
of everything but the report, the log that it is written to, and the way to an error. -/

namespace AheadOfTime

theorem Walk.ofRoots_related {R : Walk → Walk → Prop} (hR : Walk.Lockstep R)
    {level level' : TrackingLevel} (h : R (.start level) (.start level')) (roots : List Root) :
    R (.ofRoots level roots) (.ofRoots level' roots) := by
  induction roots using List.reverseRecOn with
  | nil => exact h
  | append_singleton roots r ih =>
    rw [ofRoots_concat, ofRoots_concat]
    exact hR.root ih r.node r.reason

/-- A walk keeps a report unless nothing is tracked. -/
theorem Walk.Tracks.exists_report {level : TrackingLevel} {u v w : Walk}
    (hv : Walk.Tracks level v w) (hu : Walk.Tracks .all u w) (hlevel : level ≠ .none)
    (name : NodeId → String) : ∃ r, v.report name = some r := by
  obtain ⟨u, marks, log, rfl, rfl, -, -⟩ := hu
  cases level with
  | none => exact absurd rfl hlevel
  | first =>
    rw [show v = _ from hv]
    exact ⟨_, rfl⟩
  | all =>
    obtain ⟨u', marks', log', -, rfl, -, -⟩ := hv
    exact ⟨_, rfl⟩

/-- Settings that pass the check give their backend options, and ask for a log of dependencies only
where there is something to log. -/
theorem Settings.of_check {s : Settings} {os : List BackendOption} (h : s.check = .ok os) :
    s.backendOptions.mapM BackendOption.parse = .ok os ∧
      ∀ p, s.dependencyLog = some p → s.tracking ≠ .none := by
  obtain ⟨options, hoptions, hrest⟩ := Except.bind_eq_ok.mp h
  cases hp : s.dependencyLog with
  | none =>
    obtain rfl : options = os := by simpa [hp, pure, Except.pure] using hrest
    exact ⟨hoptions, by simp⟩
  | some p =>
    by_cases ht : s.tracking = .none
    · simp [hp, ht, throw, throwThe, MonadExceptOf.throw, bind, Except.bind] at hrest
    · obtain rfl : options = os := by
        cases hq : s.metadataLog with
        | none => simpa [hp, ht, hq, pure, Except.pure] using hrest
        | some q =>
          by_cases halike : p.alike q
          · simp [hp, ht, hq, halike, throw, throwThe, MonadExceptOf.throw, bind,
              Except.bind] at hrest
          · simpa [hp, ht, hq, halike, pure, Except.pure] using hrest
      exact ⟨hoptions, fun _ _ => ht⟩

/-- Settings that pass with another tracking level lead to the same compilation but for it. -/
theorem Settings.compilation_tracked {β : Type} {s : Settings} {level : TrackingLevel}
    {world : World} {unit : CompilationUnit} {backend : Backend β} {c c' : Compilation β}
    (h : s.compilation world unit backend = .ok c)
    (h' : { s with tracking := level }.compilation world unit backend = .ok c') :
    c = { c with tracking := s.tracking } ∧ c' = { c with tracking := level } ∧
      c.dependencyLog = s.dependencyLog ∧
      ∀ p, c.dependencyLog = some p → s.tracking ≠ .none ∧ level ≠ .none := by
  obtain ⟨os, hos, rfl⟩ := Except.map_eq_ok.mp h
  obtain ⟨os', hos', rfl⟩ := Except.map_eq_ok.mp h'
  obtain ⟨hparsed, htracking⟩ := of_check hos
  obtain ⟨hparsed', htracking'⟩ := of_check hos'
  obtain rfl : os = os' := Except.ok.inj (hparsed.symm.trans hparsed')
  exact ⟨rfl, rfl, rfl, fun p hp => ⟨htracking p hp, htracking' p hp⟩⟩

namespace Compilation

variable {β : Type}

theorem outcome_together (c : Compilation β) (level : TrackingLevel) (s : Store β) :
    ({ c with tracking := level }.outcome s).Together (Walk.Tracks level)
      ({ c with tracking := .first }.outcome s) :=
  c.program.graph.walk_together (Walk.lockstep_tracks level)
    (Walk.ofRoots_related (Walk.lockstep_tracks level) (Walk.tracks_start level) _) c.parallel _

/-- Whether a log can be written does not depend on what is written. -/
theorem writeArtifact_alike (path : Option Files.Path) (contents contents' : Files.Path → String)
    (files : Files.Tree) :
    (writeArtifact path contents files).2 = (writeArtifact path contents' files).2 ∧
      ((writeArtifact path contents' files).1 = (writeArtifact path contents files).1 ∨
        ∃ p place, path = some p ∧ files.locate p = .ok place ∧
          (writeArtifact path contents files).1 = files.put place (contents p) ∧
          (writeArtifact path contents' files).1 = files.put place (contents' p)) := by
  cases path with
  | none => exact ⟨rfl, .inl rfl⟩
  | some p =>
    simp only [writeArtifact, Files.Tree.write]
    cases hplace : files.locate p with
    | error cause => exact ⟨rfl, .inl rfl⟩
    | ok place => exact ⟨rfl, .inr ⟨p, place, rfl, hplace, rfl, rfl⟩⟩

/-- Files that are the same, or the same but for the contents of the file that a path leads to. -/
def SameButLog (log : Option Files.Path) (files files' : Files.Tree) : Prop :=
  files' = files ∨ ∃ p tree place contents contents', log = some p ∧
    Files.Tree.locate tree p = .ok place ∧ files = tree.put place contents ∧
    files' = tree.put place contents'

theorem writeLogs_alike (c : Compilation β) (metadata : Metadata) {report report' : Option Report}
    (hreports : ∀ p, c.dependencyLog = some p → report.isSome ∧ report'.isSome)
    (files : Files.Tree) :
    (c.writeLogs metadata report files).2 = (c.writeLogs metadata report' files).2 ∧
      SameButLog c.dependencyLog (c.writeLogs metadata report files).1
        (c.writeLogs metadata report' files).1 := by
  unfold writeLogs
  generalize writeArtifact c.metadataLog (fun _ => metadata.text) files = written
  obtain ⟨files, first⟩ := written
  cases hlog : c.dependencyLog with
  | none => cases report <;> cases report' <;> simp [writeArtifact, SameButLog]
  | some p =>
    obtain ⟨hreport, hreport'⟩ := hreports p hlog
    obtain ⟨r, rfl⟩ := Option.isSome_iff_exists.mp hreport
    obtain ⟨r', rfl⟩ := Option.isSome_iff_exists.mp hreport'
    obtain ⟨hfailures, hfiles⟩ :=
      writeArtifact_alike (some p) r.contentsFor r'.contentsFor files
    refine ⟨congrArg (first ++ ·) hfailures, hfiles.imp id ?_⟩
    rintro ⟨p, place, hp, hplace, hwritten, hwritten'⟩
    exact ⟨p, files, place, _, _, hp, hplace, hwritten, hwritten'⟩

/-- Runs that differ in their diagnostics alone: in the report, in the file that it is written to,
and in the way to an error, of which less is told where less is tracked. -/
inductive SameButDiagnostics (level level' : TrackingLevel) (log : Option Files.Path) :
    Except Error Results × Session β → Except Error Results × Session β → Prop where
  | roots (e : NodeError) (y : Session β) :
      SameButDiagnostics level level' log (.error (.roots e), y) (.error (.roots e), y)
  | walk (e : WalkError NodeError) (he : e.path ≠ []) (y : Session β) :
      SameButDiagnostics level level' log (.error (.walk (e.shown level)), y)
        (.error (.walk (e.shown level')), y)
  | results {r r' : Results} {y y' : Session β} (hr : r' = { r with report := r'.report })
      (hy : y' = { y with files := y'.files }) (hfiles : SameButLog log y.files y'.files) :
      SameButDiagnostics level level' log (.ok r, y) (.ok r', y')

/-- What is made of two walks that marked the same. -/
theorem finish_alike (c : Compilation β) {level level' : TrackingLevel} {w w' : Walk}
    (hw : w.unrecorded = w'.unrecorded) (y : Session β)
    (hreports : ∀ p, c.dependencyLog = some p → (w.report y.store.name).isSome ∧
      (w'.report y.store.name).isSome) :
    SameButDiagnostics level level' c.dependencyLog (.ok (c.finish w y).1, (c.finish w y).2)
      (.ok (c.finish w' y).1, (c.finish w' y).2) := by
  have hmarked := congrArg Walk.marked hw
  have hcounters := congrArg Walk.counters hw
  change w.marked = w'.marked at hmarked
  change w.counters = w'.counters at hcounters
  obtain ⟨hfailures, hfiles⟩ :=
    c.writeLogs_alike (.of c.program y.store w.marked) hreports y.files
  refine .results ?_ ?_ ?_
  · simp only [finish, ← hmarked, ← hcounters, hfailures]
  · simp only [finish, ← hmarked, hfailures]
  · simp only [finish, ← hmarked]
    exact hfiles

/-- A run goes alike whatever is tracked, as long as something is if it is to be logged. -/
theorem run_tracked (c : Compilation β) {level level' : TrackingLevel}
    (hlog : ∀ p, c.dependencyLog = some p → level ≠ .none ∧ level' ≠ .none) (x : Session β) :
    SameButDiagnostics level level' c.dependencyLog ({ c with tracking := level }.run x)
      ({ c with tracking := level' }.run x) := by
  cases hgather : (c.program.gather c.roots x.store).error with
  | some e =>
    rw [run_of_gather_error (c := { c with tracking := level }) hgather,
      run_of_gather_error (c := { c with tracking := level' }) hgather]
    exact .roots e _
  | none =>
    have htracks := c.outcome_together level x.store
    have htracks' := c.outcome_together level' x.store
    have hall := c.outcome_together .all x.store
    rw [run_eq (c := { c with tracking := level }) hgather,
      run_eq (c := { c with tracking := level' }) hgather]
    cases herror : ({ c with tracking := .first }.outcome x.store).error with
    | some e =>
      have hshown (l : TrackingLevel) :
          { c with tracking := l }.conclude x ({ c with tracking := l }.outcome x.store) =
            (.error (.walk (e.shown l)), { x with
              store := ({ c with tracking := .first }.outcome x.store).state
              transcript := x.transcript.say (toString
                (c.program.gather c.roots x.store).roots.length ++ " compilation roots") }) := by
        have hl := (c.outcome_together l x.store).tracks
        have hfailed := hl.error
        rw [herror, Option.map_some] at hfailed
        simp only [conclude, hfailed, hl.state]
      rw [hshown, hshown]
      exact .walk e (htracks.tracks.path e herror) _
    | none =>
      have hthrough (l : TrackingLevel) :
          ({ c with tracking := l }.outcome x.store).error = none := by
        rw [(c.outcome_together l x.store).tracks.error, herror]
        rfl
      have hwalk := htracks.tracks.walk.trans htracks'.tracks.walk.symm
      have hstate := htracks.tracks.state.trans htracks'.tracks.state.symm
      have hcounters := congrArg Walk.counters hwalk
      change ({ c with tracking := level }.outcome x.store).walk.counters =
        ({ c with tracking := level' }.outcome x.store).walk.counters at hcounters
      simp only [conclude, hthrough, ← hstate, ← hcounters]
      refine c.finish_alike hwalk _ fun p hp => ?_
      obtain ⟨r, hr⟩ := htracks.walk.exists_report hall.walk (hlog p hp).1 _
      obtain ⟨r', hr'⟩ := htracks'.walk.exists_report hall.walk (hlog p hp).2 _
      exact ⟨by rw [hr]; rfl, by rw [hr']; rfl⟩

end Compilation

/-- Walks do the same whatever they record: over any graphs, after any turns and any number of pops
of a further walk, they have marked the same nodes, have the same in the queue and waiting, count
the same, have asked the same and ended with the same error, of whose way a walk without a record
knows the first hop. So does a compilation, whose report and log of dependencies alone depend on
what it tracks. -/
theorem tracking_changes_nothing_else :
    (∀ {σ ε : Type} (s : σ) (turns : List (Graph σ ε × Command)) (level : TrackingLevel),
      Outcome.Tracks level (performTurns level s turns) (performTurns .first s turns) ∧
      ∀ (g : Graph σ ε) (inWaves : Bool) (k : Nat),
        let start := fun level => Stage.start (performTurns level s turns).walk
          (performTurns level s turns).state
        let traced := fun level => performTurns level ([], s)
          (turns.map fun turn => (turn.1.traced, turn.2))
        let asked := fun level => (position (g.traced.pops inWaves k
          (.start (traced level).walk (traced level).state))).2.1
        Sum.LiftRel (Outcome.Tracks level) Stage.Tracks (g.pops inWaves k (start level))
            (g.pops inWaves k (start .first)) ∧
          (traced level).map Prod.snd = performTurns level s turns ∧ asked level = asked .first) ∧
    ∀ {β : Type} (s : Settings) (level : TrackingLevel) (world : World) (unit : CompilationUnit)
      (backend : Backend β) (c c' : Compilation β),
      s.compilation world unit backend = .ok c →
      { s with tracking := level }.compilation world unit backend = .ok c' →
      ∀ x, Compilation.SameButDiagnostics s.tracking level s.dependencyLog (c.run x)
        (c'.run x) := by
  refine ⟨fun s turns level => ⟨(performTurns_together_first level s turns).tracks,
    fun g inWaves k => ⟨pops_tracks level s turns g inWaves k, ?_, ?_⟩⟩, ?_⟩
  · exact (performTurns_over Graph.traced_over level ([], s) turns).symm
  · have htraced := pops_tracks level ([], s) (turns.map fun turn => (turn.1.traced, turn.2))
      g.traced inWaves k
    exact congrArg Prod.fst (position_state_eq htraced)
  · intro β s level world unit backend c c' h h' x
    obtain ⟨hc, rfl, hlog, htracking⟩ := Settings.compilation_tracked h h'
    have hrun := c.run_tracked htracking x
    rw [← hc] at hrun
    rw [← hlog]
    exact hrun

/-- A method given twice as a root, with a log of what depends on what. -/
def loggedSettings : Settings where
  transcript := .silent
  tracking := .first
  roots := [.entryPoint ⟨0⟩, .explicit [⟨.methodEntrypoint ⟨0⟩, "again"⟩]]
  optimization := .blended
  debugInfo := false
  backendOptions := []
  dependencyLog := some ⟨"deps"⟩
  metadataLog := none
  parallel := false

def loggedTwice : Compilation CallLog where
  program := Compilation.oneMethod []
  tracking := .first
  roots := [.entryPoint ⟨0⟩, .explicit [⟨.methodEntrypoint ⟨0⟩, "again"⟩]]
  metadataLog := none
  dependencyLog := some ⟨"deps"⟩
  parallel := false

theorem tracking_changes_nothing_else_logged :
    let p := Compilation.oneMethod []
    let start : Session CallLog := ⟨.empty .empty, ⟨[], []⟩, .silent⟩
    loggedSettings.compilation p.world p.unit p.backend = .ok loggedTwice ∧
      { loggedSettings with tracking := .all }.compilation p.world p.unit p.backend =
        .ok { loggedTwice with tracking := .all } ∧
      Compilation.SameButDiagnostics .first .all (some ⟨"deps"⟩) (loggedTwice.run start)
        ({ loggedTwice with tracking := .all }.run start) ∧
      ∃ results, (loggedTwice.run start).1 = .ok results := by
  intro p start
  have h : loggedSettings.compilation p.world p.unit p.backend = .ok loggedTwice := rfl
  have h' : { loggedSettings with tracking := .all }.compilation p.world p.unit p.backend =
      .ok { loggedTwice with tracking := .all } := rfl
  exact ⟨h, h', tracking_changes_nothing_else.2 loggedSettings .all p.world p.unit p.backend _ _ h h'
    start, Compilation.exists_run_ok (by cbv) (by cbv)⟩

end AheadOfTime
