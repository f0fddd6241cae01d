import AheadOfTime.Proofs.Marking.Closure
import AheadOfTime.Proofs.Marking.Lockstep

/-! Walks pop by pop. Either kind of walk does one thing over and over (`Graph.pop`): it takes the
next mark of the queue or of the wave under way and drops it, makes it or stops at it. A walk is what
comes of this in the end (`walk_of_pops`), and whatever relates two walks at every move relates them
after any number of pops (`pops_together`). -/

namespace AheadOfTime

/-- A walk between two pops. Of the wave that was begun last, `wave` is what is not popped yet, and
`answers` is what the wave was answered. A walk that takes marks one by one has no wave by then. -/
structure Stage (σ ε : Type) where
  walk : Walk
  state : σ
  wave : List Candidate
  answers : List (NodeId × Except ε Dependencies)

namespace Stage

variable {σ ε : Type}

def start (w : Walk) (s : σ) : Stage σ ε := ⟨w, s, [], []⟩

/-- The walk with the rest of its wave back in the queue. -/
def rejoined (x : Stage σ ε) : Walk := x.walk.putBack x.wave

end Stage

/-- Where a walk is between pops, or where it ended. -/
def position {σ ε : Type} : Outcome σ ε ⊕ Stage σ ε → Walk × σ
  | .inl o => (o.walk, o.state)
  | .inr x => (x.rejoined, x.state)

namespace Graph

variable {σ ε : Type} (g : Graph σ ε)

/-- Takes the next mark out of the queue, or all of them as a wave, if nothing is taken out yet. -/
def refill (inWaves : Bool) (x : Stage σ ε) : Stage σ ε :=
  match x.wave, x.walk.pending with
  | [], p :: rest =>
    if inWaves then
      let (answers, s) := g.queryAll x.walk.waveNodes x.state
      ⟨x.walk.beginWave, s, p :: rest, answers⟩
    else ⟨{ x.walk with pending := rest }, x.state, [p], []⟩
  | _, _ => x

/-- One turn of the loop of a walk, which ends the walk or goes on with it. -/
def pop (inWaves : Bool) (x : Stage σ ε) : Outcome σ ε ⊕ Stage σ ε :=
  let x := g.refill inWaves x
  match x.wave with
  | [] => .inl ⟨x.walk, x.state, none⟩
  | p :: rest =>
    if p.node ∈ x.walk.marked then .inr { x with walk := x.walk.skip, wave := rest }
    else
      match g.answerFor x.answers p.node x.state with
      | (.error cause, s) => .inl ⟨x.rejoined, s, some (x.walk.failure (g.name s) p cause)⟩
      | (.ok deps, s) => .inr { x with walk := x.walk.mark p deps, state := s, wave := rest }

/-- Some turns of the loop, or fewer if it ends before. -/
def pops (g : Graph σ ε) (inWaves : Bool) : Nat → Stage σ ε → Outcome σ ε ⊕ Stage σ ε
  | 0, x => .inr x
  | k + 1, x =>
    match g.pop inWaves x with
    | .inl o => .inl o
    | .inr y => pops g inWaves k y

theorem pops_of_ended {inWaves : Bool} {x : Stage σ ε} {o : Outcome σ ε}
    (h : g.pop inWaves x = .inl o) (k : Nat) : g.pops inWaves (k + 1) x = .inl o := by
  rw [pops, h]

theorem pops_of_pop {inWaves : Bool} {x y : Stage σ ε} (h : g.pop inWaves x = .inr y) (k : Nat) :
    g.pops inWaves (k + 1) x = g.pops inWaves k y := by
  rw [pops, h]

/-- What a pop can come to, from a stage at which the next mark is taken out. -/
inductive Popped (x : Stage σ ε) : Outcome σ ε ⊕ Stage σ ε → Prop where
  | through (hx : x.wave = []) (hw : x.walk.pending = []) :
      Popped x (.inl ⟨x.walk, x.state, none⟩)
  | skip {p rest} (hx : x.wave = p :: rest) (hp : p.node ∈ x.walk.marked) :
      Popped x (.inr { x with walk := x.walk.skip, wave := rest })
  | fail {p rest cause s} (hx : x.wave = p :: rest) (hp : p.node ∉ x.walk.marked)
      (ha : g.answerFor x.answers p.node x.state = (.error cause, s)) :
      Popped x (.inl ⟨x.rejoined, s, some (x.walk.failure (g.name s) p cause)⟩)
  | mark {p rest deps s} (hx : x.wave = p :: rest) (hp : p.node ∉ x.walk.marked)
      (ha : g.answerFor x.answers p.node x.state = (.ok deps, s)) :
      Popped x (.inr { x with walk := x.walk.mark p deps, state := s, wave := rest })

/-- What a refill does: nothing, as something is taken out or there is nothing to take, or it takes
out a single mark, or a wave. -/
theorem refill_cases (inWaves : Bool) (x : Stage σ ε) :
    ((x.wave ≠ [] ∨ x.walk.pending = []) ∧ g.refill inWaves x = x) ∨
    (∃ p rest, x.wave = [] ∧ x.walk.pending = p :: rest ∧ inWaves = false ∧
      g.refill inWaves x = ⟨{ x.walk with pending := rest }, x.state, [p], []⟩) ∨
    (x.wave = [] ∧ x.walk.pending ≠ [] ∧ inWaves = true ∧ g.refill inWaves x =
      ⟨x.walk.beginWave, (g.queryAll x.walk.waveNodes x.state).2, x.walk.pending,
        (g.queryAll x.walk.waveNodes x.state).1⟩) := by
  obtain ⟨w, s, wave, answers⟩ := x
  cases wave with
  | cons p rest => exact .inl ⟨.inl (List.cons_ne_nil p rest), rfl⟩
  | nil =>
    cases hw : w.pending with
    | nil => exact .inl ⟨.inr rfl, by simp [refill, hw]⟩
    | cons p rest =>
      cases inWaves with
      | false => exact .inr (.inl ⟨p, rest, rfl, rfl, rfl, by simp [refill, hw]⟩)
      | true => exact .inr (.inr ⟨rfl, List.cons_ne_nil p rest, rfl, by simp [refill, hw]⟩)

/-- Taking marks out of the queue leaves the walk as it is, up to the count of waves. -/
theorem refill_rejoined (inWaves : Bool) (x : Stage σ ε) :
    (g.refill inWaves x).rejoined =
      if x.wave = [] ∧ x.walk.pending ≠ [] ∧ inWaves then x.rejoined.countWave
      else x.rejoined := by
  rcases g.refill_cases inWaves x with ⟨hx, h⟩ | ⟨p, rest, hwave, hpending, hwaves, h⟩ |
    ⟨hwave, hpending, hwaves, h⟩ <;> rw [h]
  · rw [if_neg fun hall => hx.elim (absurd hall.1) (absurd · hall.2.1)]
  · rw [if_neg fun hall => by simp [hwaves] at hall]
    simp [Stage.rejoined, Walk.putBack, hwave, hpending]
  · rw [if_pos ⟨hwave, hpending, hwaves⟩, Stage.rejoined, Walk.putBack_beginWave]
    simp [Stage.rejoined, Walk.putBack, Walk.countWave, hwave]

/-- If nothing is taken out after a refill, nothing was pending. -/
theorem pending_of_refill {inWaves : Bool} {x : Stage σ ε}
    (h : (g.refill inWaves x).wave = []) : (g.refill inWaves x).walk.pending = [] := by
  rcases g.refill_cases inWaves x with ⟨hx, hsame⟩ | ⟨p, rest, -, -, -, hsame⟩ |
    ⟨-, hpending, -, hsame⟩ <;> rw [hsame] at h
  · rw [or_iff_right (not_not_intro h)] at hx
    rw [hsame, hx]
  · exact absurd h (List.cons_ne_nil p [])
  · exact absurd h hpending

theorem popped (inWaves : Bool) (x : Stage σ ε) :
    g.Popped (g.refill inWaves x) (g.pop inWaves x) := by
  unfold pop
  dsimp only
  split
  · rename_i hx
    exact .through hx (g.pending_of_refill hx)
  · rename_i p rest hx
    split
    · rename_i hp
      exact .skip hx hp
    · rename_i hp
      split
      · rename_i ha
        exact .fail hx hp ha
      · rename_i ha
        exact .mark hx hp ha

/-- What becomes of a walk that is under way. -/
def resume (inWaves : Bool) (x : Stage σ ε) : Outcome σ ε :=
  match g.applyWave x.answers x.wave x.walk x.state with
  | ⟨w, s, none⟩ => g.walk inWaves w s
  | outcome => outcome

variable {g} in
theorem resume_of_nil {inWaves : Bool} {x : Stage σ ε} (hx : x.wave = []) :
    g.resume inWaves x = g.walk inWaves x.walk x.state := by
  rw [resume, hx]
  rfl

theorem resume_refill (inWaves : Bool) (x : Stage σ ε) :
    g.resume inWaves (g.refill inWaves x) = g.resume inWaves x := by
  rcases g.refill_cases inWaves x with ⟨-, h⟩ | ⟨p, rest, hwave, hpending, rfl, h⟩ |
    ⟨hwave, hpending, rfl, h⟩ <;> rw [h]
  · rw [resume_of_nil hwave, resume]
    by_cases hp : p.node ∈ x.walk.marked
    · have hskip : g.walk false x.walk x.state =
          g.drain { x.walk with pending := rest }.skip x.state := g.drain_skip hpending hp x.state
      rw [hskip]
      simp only [applyWave, if_pos hp]
      rfl
    · rcases hq : g.query p.node x.state with ⟨cause | deps, s⟩
      · have hfail : g.walk false x.walk x.state =
            ⟨x.walk, s, some (x.walk.failure (g.name s) p cause)⟩ := g.drain_fail hpending hp hq
        rw [hfail]
        obtain ⟨w, s', wave, answers⟩ := x
        obtain ⟨marked, pending, deferred, counters, record⟩ := w
        cases hpending
        simp only [applyWave, if_neg hp, answerFor, List.lookup_nil, hq]
        rfl
      · have hmark : g.walk false x.walk x.state =
            g.drain ({ x.walk with pending := rest }.mark p deps) s := g.drain_mark hpending hp hq
        rw [hmark]
        simp only [applyWave, if_neg hp, answerFor, List.lookup_nil, hq]
        rfl
  · rw [resume_of_nil hwave]
    show (match g.wave x.walk x.state with
      | ⟨w, s, none⟩ => g.drainWaves w s
      | outcome => outcome) = g.drainWaves x.walk x.state
    rcases hwaved : g.wave x.walk x.state with ⟨w, s, error | error⟩
    · exact (g.drainWaves_of_wave hpending hwaved).symm
    · exact (g.drainWaves_of_error (by rw [hwaved])).trans hwaved |>.symm

/-- A pop is on the way that a walk takes. -/
theorem resume_pop (inWaves : Bool) (x : Stage σ ε) :
    g.resume inWaves x = (g.pop inWaves x).elim id (g.resume inWaves) := by
  rw [← g.resume_refill inWaves x]
  have hpopped := g.popped inWaves x
  generalize g.pop inWaves x = result at hpopped ⊢
  cases hpopped with
  | through hx hw =>
    rw [resume_of_nil hx]
    cases inWaves with
    | false => exact g.drain_nil hw _
    | true =>
      simp only [walk, if_true]
      rw [drainWaves, dif_pos hw]
      rfl
  | skip hx hp =>
    rw [resume, hx, applyWave, if_pos hp]
    rfl
  | fail hx hp ha =>
    rw [resume, hx, applyWave, if_neg hp, ha, Stage.rejoined, hx]
    rfl
  | mark hx hp ha =>
    rw [resume, hx, applyWave, if_neg hp, ha]
    rfl

theorem resume_pops (inWaves : Bool) (k : Nat) (x : Stage σ ε) :
    g.resume inWaves x = (g.pops inWaves k x).elim id (g.resume inWaves) := by
  induction k generalizing x with
  | zero => rfl
  | succ k ih =>
    rw [resume_pop, pops]
    cases g.pop inWaves x with
    | inl o => rfl
    | inr y => exact ih y

/-- If some pops come to an end, that is what the walk comes to. -/
theorem walk_of_pops {inWaves : Bool} {k : Nat} {w : Walk} {s : σ} {o : Outcome σ ε}
    (h : g.pops inWaves k (.start w s) = .inl o) : g.walk inWaves w s = o := by
  have hresume := g.resume_pops inWaves k (.start w s)
  rw [resume_of_nil rfl, h] at hresume
  exact hresume

end Graph

/-- Two walks between pops that are related, with the same taken out. -/
structure Stage.Together {σ ε : Type} (R : Walk → Walk → Prop) (x y : Stage σ ε) : Prop where
  walk : R x.rejoined y.rejoined
  state : x.state = y.state
  wave : x.wave = y.wave
  answers : x.answers = y.answers

namespace Graph

variable {σ ε : Type} (g : Graph σ ε) {R : Walk → Walk → Prop} (hR : Walk.Lockstep R)
  {x y : Stage σ ε}
include hR

theorem refill_together (h : x.Together R y) (inWaves : Bool) :
    (g.refill inWaves x).Together R (g.refill inWaves y) := by
  obtain ⟨v, s, wave, answers⟩ := x
  obtain ⟨w, s', wave', answers'⟩ := y
  obtain ⟨hwalk, rfl, rfl, rfl⟩ := h
  have hpending : v.pending = w.pending := hR.pending_of_putBack hwalk
  have hmarked : (v.putBack wave).marked = (w.putBack wave).marked := hR.marked hwalk
  have hnodes : v.waveNodes = w.waveNodes := by
    change v.marked = w.marked at hmarked
    simp only [Walk.waveNodes, hpending, hmarked]
  refine ⟨?_, ?_, ?_, ?_⟩
  · rw [refill_rejoined, refill_rejoined, hpending]
    split
    · exact hR.wave hwalk
    · exact hwalk
  all_goals
    simp only [refill, ← hpending, ← hnodes]
    split
    · split <;> rfl
    · rfl

/-- Pops take related walks to related ends, or to related stages of the way. -/
theorem pop_together (h : x.Together R y) (inWaves : Bool) :
    Sum.LiftRel (Outcome.Together R) (Stage.Together R) (g.pop inWaves x) (g.pop inWaves y) := by
  have hrefill := g.refill_together hR h inWaves
  unfold pop
  generalize g.refill inWaves x = x at hrefill
  generalize g.refill inWaves y = y at hrefill
  obtain ⟨v, s, wave, answers⟩ := x
  obtain ⟨w, s', wave', answers'⟩ := y
  obtain ⟨hwalk, rfl, rfl, rfl⟩ := hrefill
  cases wave with
  | nil => exact .inl ⟨hwalk, rfl, .inl ⟨rfl, rfl⟩⟩
  | cons p rest =>
    have hmarked : (v.putBack (p :: rest)).marked = (w.putBack (p :: rest)).marked :=
      hR.marked hwalk
    change v.marked = w.marked at hmarked
    dsimp only
    by_cases hp : p.node ∈ v.marked
    · rw [if_pos hp, if_pos (hmarked ▸ hp)]
      exact .inr ⟨hR.skip_putBack hwalk hp, rfl, rfl, rfl⟩
    · rw [if_neg hp, if_neg (hmarked ▸ hp)]
      rcases g.answerFor answers p.node s with ⟨cause | deps, s'⟩
      · exact .inl ⟨hwalk, rfl, .inr ⟨p, List.mem_cons_self, g.name s', cause, rfl, rfl⟩⟩
      · exact .inr ⟨hR.mark_putBack hwalk hp deps, rfl, rfl, rfl⟩

theorem pops_together (h : x.Together R y) (inWaves : Bool) (k : Nat) :
    Sum.LiftRel (Outcome.Together R) (Stage.Together R) (g.pops inWaves k x)
      (g.pops inWaves k y) := by
  induction k generalizing x y with
  | zero => exact .inr h
  | succ k ih =>
    have hpop := g.pop_together hR h inWaves
    rw [pops, pops]
    revert hpop
    rcases g.pop inWaves x with o | x <;> rcases g.pop inWaves y with o' | y <;> intro hpop
    · exact hpop
    · cases hpop
    · cases hpop
    · exact ih (Sum.liftRel_inr_inr.mp hpop)

end Graph

end AheadOfTime
