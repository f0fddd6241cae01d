import AheadOfTime.Proofs.Marking.Discovery
import AheadOfTime.Proofs.Marking.Observed

/-! What a walk records never decides what it does. Walks that are told the same and keep different
records mark the same nodes, ask the same questions and stop at the same errors; only the way that
an error tells is shorter where nothing is recorded. -/

namespace AheadOfTime

/-- The walk without its record. -/
def Walk.unrecorded (w : Walk) : Walk := w.recording .off

/-- What is left of a way to a node if walks keep such records: without a record the first hop. -/
def TrackingLevel.shown (level : TrackingLevel) (path : List String) : List String :=
  match level with
  | .none => path.take 1
  | .first => path
  | .all => path

def WalkError.shown {ε : Type} (level : TrackingLevel) (e : WalkError ε) : WalkError ε :=
  { e with path := level.shown e.path }

/-- The walk keeps records of a level. It is otherwise like one that keeps first marks, and records
of all edges tell the same as first marks. -/
def Walk.Tracks (level : TrackingLevel) (v w : Walk) : Prop :=
  match level with
  | .none => v = w.unrecorded
  | .first => v = w
  | .all => Walk.TellAlike w v

namespace Walk

theorem Lockstep.flip {R : Walk → Walk → Prop} (hR : Lockstep R) :
    Lockstep fun v w => R w v where
  marked h := (hR.marked h).symm
  pending h := (hR.pending h).symm
  root h n reason := hR.root h n reason
  skip h hv hp := hR.skip h ((hR.pending h).trans hv) (hR.marked h ▸ hp)
  mark h hv hp deps := hR.mark h ((hR.pending h).trans hv) (hR.marked h ▸ hp) deps
  wave h := hR.wave h

theorem lockstep_unrecorded : Lockstep fun v w => v = w.unrecorded where
  marked h := by rw [h]; rfl
  pending h := by rw [h]; rfl
  root h n reason := by
    rw [h, unrecorded, addRoot_recording]
    rfl
  skip h _ _ := by rw [h]; rfl
  mark {v w p rest} h _ _ deps := by
    have hrest : { w.unrecorded with pending := rest } =
        ({ w with pending := rest } : Walk).recording .off := rfl
    have hoff (es : List RecordedEdge) : es.foldl Record.noteEdge .off = .off := by
      induction es with
      | nil => rfl
      | cons e es ih => exact ih
    rw [h, hrest, mark_recording, Record.noteMark, hoff]
    · rfl
    · rintro _ ⟨⟩
  wave h := by rw [h]; rfl

theorem lockstep_tracks (level : TrackingLevel) : Lockstep (Tracks level) := by
  cases level with
  | none => exact lockstep_unrecorded
  | first => exact ⟨by rintro _ _ rfl; rfl, by rintro _ _ rfl; rfl, by rintro _ _ rfl n reason; rfl,
      by rintro _ _ p rest rfl hv hp; rfl, by rintro _ _ p rest rfl hv hp deps; rfl,
      by rintro _ _ rfl; rfl⟩
  | all => exact lockstep_tellAlike.flip

theorem tracks_start (level : TrackingLevel) : Tracks level (start level) (start .first) := by
  cases level with
  | none => rfl
  | first => rfl
  | all => exact tellAlike_start

variable {level : TrackingLevel} {v w : Walk}

theorem Tracks.unrecorded_eq (h : Tracks level v w) : v.unrecorded = w.unrecorded := by
  cases level with
  | none => rw [show v = w.unrecorded from h]; rfl
  | first => rw [show v = w from h]
  | all =>
    obtain ⟨u, marks, log, rfl, rfl, -, -⟩ := h
    rfl

/-- All tell the same of a failure, except that without a record nothing is known but the first
hop. -/
theorem Tracks.failure_eq {ε : Type} (h : Tracks level v w) {p : Candidate} (hp : p ∈ v.pending)
    (name : NodeId → String) (cause : ε) :
    v.failure name p cause = (w.failure name p cause).shown level := by
  cases level with
  | none =>
    rw [show v = w.unrecorded from h]
    cases hsource : p.source <;>
      simp [failure, trailTo, unrecorded, recording, Record.trail, WalkError.shown,
        TrackingLevel.shown, hsource]
  | first => rw [show v = w from h]; rfl
  | all =>
    obtain ⟨u, marks, log, rfl, rfl, story, sourced⟩ := h
    exact (story.failure_eq (sourced.pending p hp) name cause).1

end Walk

/-- How an outcome of a walk with records of a level compares with one with first marks. -/
structure Outcome.Tracks {σ ε : Type} (level : TrackingLevel) (a b : Outcome σ ε) : Prop where
  walk : a.walk.unrecorded = b.walk.unrecorded
  state : a.state = b.state
  error : a.error = b.error.map (WalkError.shown level)
  path : ∀ e, b.error = some e → e.path ≠ []

structure Stage.Tracks {σ ε : Type} (x y : Stage σ ε) : Prop where
  walk : x.walk.unrecorded = y.walk.unrecorded
  state : x.state = y.state
  wave : x.wave = y.wave
  answers : x.answers = y.answers

theorem Outcome.Together.tracks {σ ε : Type} {level : TrackingLevel} {a b : Outcome σ ε}
    (h : a.Together (Walk.Tracks level) b) : Outcome.Tracks level a b := by
  refine ⟨h.walk.unrecorded_eq, h.state, ?_, fun e he => ?_⟩
  · rcases h.error with ⟨ha, hb⟩ | ⟨p, hp, name, cause, ha, hb⟩
    · rw [ha, hb]
      rfl
    · rw [ha, hb, h.walk.failure_eq hp]
      rfl
  · rcases h.error with ⟨-, hb⟩ | ⟨p, -, name, cause, -, hb⟩
    · rw [hb] at he
      cases he
    · rw [hb] at he
      cases he
      exact List.cons_ne_nil _ _

theorem Stage.Together.tracks {σ ε : Type} {level : TrackingLevel} {x y : Stage σ ε}
    (h : x.Together (Walk.Tracks level) y) : x.Tracks y := by
  refine ⟨?_, h.state, h.wave, h.answers⟩
  have hwalk := h.walk.unrecorded_eq
  obtain ⟨⟨⟩, s, wave, answers⟩ := x
  obtain ⟨⟨⟩, s', wave', answers'⟩ := y
  obtain rfl : wave = wave' := h.wave
  simpa [Stage.rejoined, Walk.putBack, Walk.unrecorded, Walk.recording] using hwalk

/-- At related points the same was asked. -/
theorem position_state_eq {σ ε : Type} {level : TrackingLevel} {a b : Outcome σ ε ⊕ Stage σ ε}
    (h : Sum.LiftRel (Outcome.Tracks level) Stage.Tracks a b) :
    (position a).2 = (position b).2 := by
  cases h with
  | inl h => exact h.state
  | inr h => exact h.state

section Turns

variable {σ ε : Type} (level : TrackingLevel) (s : σ) (turns : List (Graph σ ε × Command))

theorem performTurns_together_first :
    (performTurns level s turns).Together (Walk.Tracks level) (performTurns .first s turns) :=
  performTurns_together (Walk.lockstep_tracks level) (Walk.tracks_start level) s turns

/-- The same after any number of pops of a further walk. -/
theorem pops_tracks (g : Graph σ ε) (inWaves : Bool) (k : Nat) :
    let go := fun level => g.pops inWaves k
      (.start (performTurns level s turns).walk (performTurns level s turns).state)
    Sum.LiftRel (Outcome.Tracks level) Stage.Tracks (go level) (go .first) := by
  have hturns := performTurns_together_first level s turns
  have hstart : (Stage.start (performTurns level s turns).walk
      (performTurns level s turns).state : Stage σ ε).Together (Walk.Tracks level)
      (.start (performTurns .first s turns).walk (performTurns .first s turns).state) :=
    ⟨hturns.walk, hturns.state, rfl, rfl⟩
  exact (g.pops_together (Walk.lockstep_tracks level) hstart inWaves k).mono
    (fun _ _ h => h.tracks) fun _ _ h => h.tracks

end Turns

end AheadOfTime
