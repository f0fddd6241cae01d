import AheadOfTime.Proofs.Marking.Waves

/-! Two walks side by side. If related walks see the same queue and each move of both relates them
again (`Lockstep`), then so does a whole walk of either kind over any graph: both ask the same
questions and end in the same state, through or at the same mark (`walk_together`). The graph may be
another for each command (`performTurns_together`). -/

namespace AheadOfTime

/-- Related walks see the same marks and the same queue, and whatever move comes next, both can
make it and are related again. -/
structure Walk.Lockstep (R : Walk → Walk → Prop) : Prop where
  marked {v w} (h : R v w) : v.marked = w.marked
  pending {v w} (h : R v w) : v.pending = w.pending
  root {v w} (h : R v w) (n : NodeId) (reason : String) :
    R (v.addRoot n reason) (w.addRoot n reason)
  skip {v w p rest} (h : R v w) (hv : v.pending = p :: rest) (hp : p.node ∈ v.marked) :
    R { v with pending := rest }.skip { w with pending := rest }.skip
  mark {v w p rest} (h : R v w) (hv : v.pending = p :: rest) (hp : p.node ∉ v.marked)
    (deps : Dependencies) :
    R ({ v with pending := rest }.mark p deps) ({ w with pending := rest }.mark p deps)
  wave {v w} (h : R v w) : R v.countWave w.countWave

namespace Walk.Lockstep

variable {R : Walk → Walk → Prop} (hR : Lockstep R) {v w : Walk} {p : Candidate}
  {ps : List Candidate}
include hR

theorem pending_of_putBack (h : R (v.putBack ps) (w.putBack ps)) : v.pending = w.pending := by
  have hqueues : ps ++ v.pending = ps ++ w.pending := hR.pending h
  exact List.append_cancel_left hqueues

theorem skip_putBack (h : R (v.putBack (p :: ps)) (w.putBack (p :: ps)))
    (hp : p.node ∈ v.marked) : R (v.skip.putBack ps) (w.skip.putBack ps) := by
  have hskip := hR.skip h rfl hp
  have hw : w.skip.putBack ps = { w.putBack (p :: ps) with pending := ps ++ v.pending }.skip := by
    rw [hR.pending_of_putBack h]
    rfl
  rw [hw]
  exact hskip

theorem mark_putBack (h : R (v.putBack (p :: ps)) (w.putBack (p :: ps)))
    (hp : p.node ∉ v.marked) (deps : Dependencies) :
    R ((v.mark p deps).putBack ps) ((w.mark p deps).putBack ps) := by
  have hmark := hR.mark h rfl hp deps
  rw [← putBack_mark, ← putBack_mark, ← hR.pending_of_putBack h]
  exact hmark

end Walk.Lockstep

/-- Related walks ended in the same state, both through or both at the same mark, each with its own
account of the way there. -/
structure Outcome.Together {σ ε : Type} (R : Walk → Walk → Prop) (a b : Outcome σ ε) : Prop where
  walk : R a.walk b.walk
  state : a.state = b.state
  error : (a.error = none ∧ b.error = none) ∨ ∃ p ∈ a.walk.pending, ∃ name cause,
    a.error = some (a.walk.failure name p cause) ∧ b.error = some (b.walk.failure name p cause)

namespace Graph

variable {σ ε : Type} (g : Graph σ ε)

/-- A wave that does not fail is followed by the next. -/
theorem drainWaves_of_wave {w w' : Walk} {s s' : σ} (hw : w.pending ≠ [])
    (ho : g.wave w s = ⟨w', s', none⟩) : g.drainWaves w s = g.drainWaves w' s' := by
  rw [drainWaves, dif_neg hw]
  split
  · rename_i ho'
    rw [ho] at ho'
    cases ho'
    rfl
  · rename_i hfail
    exact (hfail _ _ ho).elim

variable {R : Walk → Walk → Prop} (hR : Walk.Lockstep R) {v w : Walk}
include hR

theorem drain_together (h : R v w) (s : σ) : (g.drain v s).Together R (g.drain w s) := by
  fun_induction drain g v s generalizing w with
  | case1 v s hv =>
    rw [drain_nil g ((hR.pending h).symm.trans hv)]
    exact ⟨h, rfl, .inl ⟨rfl, rfl⟩⟩
  | case2 v s p rest hv hp ih =>
    rw [drain_skip g ((hR.pending h).symm.trans hv) (hR.marked h ▸ hp)]
    exact ih (hR.skip h hv hp)
  | case3 v s p rest hv hp cause s' hq =>
    rw [drain_fail g ((hR.pending h).symm.trans hv) (hR.marked h ▸ hp) hq]
    have hpending : p ∈ v.pending := hv ▸ List.mem_cons_self
    exact ⟨h, rfl, .inr ⟨p, hpending, g.name s', cause, rfl, rfl⟩⟩
  | case4 v s p rest hv hp deps s' hq ih =>
    rw [drain_mark g ((hR.pending h).symm.trans hv) (hR.marked h ▸ hp) hq]
    exact ih (hR.mark h hv hp deps)

/-- Within a wave the related walks are those in which the rest of the wave is still queued. -/
theorem applyWave_together (answers : List (NodeId × Except ε Dependencies)) (ps : List Candidate)
    (h : R (v.putBack ps) (w.putBack ps)) (s : σ) :
    (g.applyWave answers ps v s).Together R (g.applyWave answers ps w s) := by
  induction ps generalizing v w s with
  | nil => exact ⟨h, rfl, .inl ⟨rfl, rfl⟩⟩
  | cons p ps ih =>
    have hmarked : (v.putBack (p :: ps)).marked = (w.putBack (p :: ps)).marked := hR.marked h
    change v.marked = w.marked at hmarked
    unfold applyWave
    by_cases hp : p.node ∈ v.marked
    · rw [if_pos hp, if_pos (hmarked ▸ hp)]
      exact ih (hR.skip_putBack h hp) s
    · rw [if_neg hp, if_neg (hmarked ▸ hp)]
      rcases hq : g.answerFor answers p.node s with ⟨cause | deps, s'⟩
      · exact ⟨h, rfl, .inr ⟨p, List.mem_cons_self, g.name s', cause, rfl, rfl⟩⟩
      · exact ih (hR.mark_putBack h hp deps) s'

theorem wave_together (h : R v w) (s : σ) : (g.wave v s).Together R (g.wave w s) := by
  have hnodes : v.waveNodes = w.waveNodes := by
    simp only [Walk.waveNodes, hR.marked h, hR.pending h]
  have hbegun : R (v.beginWave.putBack v.pending) (w.beginWave.putBack v.pending) := by
    rw [Walk.putBack_beginWave, hR.pending h, Walk.putBack_beginWave]
    exact hR.wave h
  simp only [wave]
  rw [← hnodes, ← hR.pending h]
  exact g.applyWave_together hR _ v.pending hbegun _

theorem drainWaves_together (h : R v w) (s : σ) :
    (g.drainWaves v s).Together R (g.drainWaves w s) := by
  fun_induction drainWaves g v s generalizing w with
  | case1 v s hv =>
    have hw : w.pending = [] := (hR.pending h).symm.trans hv
    rw [drainWaves, dif_pos hw]
    exact ⟨h, rfl, .inl ⟨rfl, rfl⟩⟩
  | case2 v s hv v' s' ho ih =>
    have hw : w.pending ≠ [] := hR.pending h ▸ hv
    obtain ⟨hwalk, hstate, herror⟩ := g.wave_together hR h s
    rw [ho] at hwalk hstate herror
    rcases herror with ⟨-, herror⟩ | ⟨p, -, name, cause, herror, -⟩
    · have hwave : g.wave w s = ⟨(g.wave w s).walk, s', none⟩ := by
        change s' = (g.wave w s).state at hstate
        rw [hstate, ← herror]
      rw [drainWaves_of_wave g hw hwave]
      exact ih hwalk
    · cases herror
  | case3 v s hv hfail =>
    have hwave := g.wave_together hR h s
    rcases hwave.error with ⟨herror, -⟩ | ⟨p, -, name, cause, -, herror⟩
    · exact (hfail _ _ (by rw [← herror])).elim
    · rw [g.drainWaves_of_error herror]
      exact hwave

theorem walk_together (h : R v w) (inWaves : Bool) (s : σ) :
    (g.walk inWaves v s).Together R (g.walk inWaves w s) := by
  cases inWaves with
  | false => exact g.drain_together hR h s
  | true => exact g.drainWaves_together hR h s

theorem perform_together {a b : Outcome σ ε} (h : a.Together R b) (c : Command) :
    (g.perform a c).Together R (g.perform b c) := by
  cases c with
  | root n reason => exact ⟨hR.root h.walk n reason, h.state, .inl ⟨rfl, rfl⟩⟩
  | walk inWaves =>
    simp only [perform]
    rw [h.state]
    exact g.walk_together hR h.walk inWaves b.state

end Graph

/-- Carries out commands from a fresh walk, each over the graph as it is by then. -/
def performTurns {σ ε : Type} (level : TrackingLevel) (s : σ)
    (turns : List (Graph σ ε × Command)) : Outcome σ ε :=
  turns.foldl (fun o turn => turn.1.perform o turn.2) ⟨.start level, s, none⟩

theorem performTurns_together {σ ε : Type} {R : Walk → Walk → Prop} (hR : Walk.Lockstep R)
    {level level' : TrackingLevel} (h : R (.start level) (.start level')) (s : σ)
    (turns : List (Graph σ ε × Command)) :
    (performTurns level s turns).Together R (performTurns level' s turns) := by
  induction turns using List.reverseRecOn with
  | nil => exact ⟨h, rfl, .inl ⟨rfl, rfl⟩⟩
  | append_singleton turns turn ih =>
    simp only [performTurns, List.foldl_append] at ih ⊢
    exact turn.1.perform_together hR ih turn.2

end AheadOfTime
