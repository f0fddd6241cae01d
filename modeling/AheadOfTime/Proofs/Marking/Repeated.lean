import AheadOfTime.Proofs.Marking.Lockstep
import AheadOfTime.Proofs.Marking.Waves

/-! Walks that are made again. Where a question that was answered is answered alike ever after, and
then changes nothing (`Graph.Repeats`), a walk made again, on a state that its first run has led to
or a later one, takes the same way. If it had come to its end, it comes to the same end and leaves
the state alone (`walk_again`); if it had failed, it comes to the same question (`drain_again`). -/

namespace AheadOfTime.Graph

variable {σ ε : Type}

/-- In states of a kind, an answer is given again in every later state. -/
structure Repeats (g : Graph σ ε) (I : σ → Prop) (le : σ → σ → Prop) : Prop where
  keeps : g.Keeps I
  refl : ∀ s, le s s
  trans : ∀ {s t u}, le s t → le t u → le s u
  later : ∀ s n, le s (g.query n s).2
  again : ∀ {s t n deps s'}, I s → I t → g.query n s = (.ok deps, s') → le s' t →
    g.query n t = (.ok deps, t)

variable {g : Graph σ ε} {I : σ → Prop} {le : σ → σ → Prop} {w : Walk} {s t : σ}

/-- Where a walk one by one stops: at a question that nothing answers. -/
theorem drain_stops (hI : g.Keeps I) (hs : I s) {e : WalkError ε}
    (he : (g.drain w s).error = some e) :
    ∃ q rest cause s', (g.drain w s).walk.pending = q :: rest ∧
      q.node ∉ (g.drain w s).walk.marked ∧ I s' ∧
      g.query q.node s' = (.error cause, (g.drain w s).state) ∧
      e = (g.drain w s).walk.failure (g.name (g.drain w s).state) q cause := by
  fun_induction drain g w s with
  | case1 w s hw => cases he
  | case2 w s p rest hw hp ih => exact ih hs he
  | case3 w s p rest hw hp cause s' hq =>
    exact ⟨p, rest, cause, s, hw, hp, hs, hq, (Option.some.inj he).symm⟩
  | case4 w s p rest hw hp deps s' hq ih => exact ih ((congrArg (I ·.2) hq).mp (hI hs p.node)) he

/-- A walk in waves comes through where a walk one by one does. -/
theorem drainWaves_through (h : (g.drain w s).error = none) : (g.drainWaves w s).error = none := by
  cases g.drainWaves_matches w s with
  | through ha hab => exact ha
  | stopped p cause hwalk ha hb => cases hb.error.symm.trans h

/-- A walk of either kind that fails has asked a question that nothing answered, of the node that it
names. A walk in waves may have gone on asking after it. -/
theorem walk_stops (hI : g.Keeps I) (hs : I s) (inWaves : Bool) {e : WalkError ε}
    (he : (g.walk inWaves w s).error = some e) :
    ∃ q s', q ∈ (g.drain w s).walk.pending ∧ I s' ∧
      g.query q.node s' = (.error e.cause, (g.drain w s).state) ∧
      g.Reach (g.drain w s).state (g.walk inWaves w s).state ∧
      e.node = g.name (g.walk inWaves w s).state q.node := by
  cases inWaves with
  | false =>
    obtain ⟨q, rest, cause, s', hpending, -, hs', hq, rfl⟩ := drain_stops hI hs he
    exact ⟨q, s', hpending ▸ List.mem_cons_self, hs', hq, .refl, rfl⟩
  | true =>
    have he : (g.drainWaves w s).error = some e := he
    cases g.drainWaves_matches w s with
    | through ha hab => cases he.symm.trans ha
    | stopped p cause hwalk ha hb hasked hreach =>
      obtain ⟨q, rest, cause', s', hpending, -, hs', hq, hfailure⟩ := drain_stops hI hs hb.error
      obtain ⟨rest', hpending'⟩ := hb.pending
      cases hpending.symm.trans hpending'
      obtain rfl : cause = cause' := congrArg WalkError.cause hfailure
      obtain rfl := Option.some.inj (he.symm.trans ha.error)
      exact ⟨p, s', hpending ▸ List.mem_cons_self, hs', hq, hreach, rfl⟩

namespace Repeats

variable (h : g.Repeats I le)
include h

theorem keeps_le (s : σ) : g.Keeps (le s) := fun s' hs' n => h.trans hs' (h.later s' n)

/-- A walk one by one goes the way that it went. -/
theorem drain_again (hs : I s) (ht : I t) (hle : le (g.drain w s).state t) :
    g.drain w t = g.drain (g.drain w s).walk t := by
  fun_induction drain g w s with
  | case1 w s hw => rfl
  | case2 w s p rest hw hp ih => rw [drain_skip g hw hp, ih hs hle]
  | case3 w s p rest hw hp cause s' hq => rfl
  | case4 w s p rest hw hp deps s' hq ih =>
    have hs' : I s' := (congrArg (I ·.2) hq).mp (h.keeps hs p.node)
    have hlater : le s' t := h.trans (drain_keeps (h.keeps_le s') (h.refl s')) hle
    rw [drain_mark g hw hp (h.again hs ht hq hlater), ih hs' hle]

/-- All questions of a wave that goes through are answered again, so that it goes through again. -/
theorem applyWave_again (answers answers' : List (NodeId × Except ε Dependencies))
    (ps : List Candidate) (w : Walk) (hs : I s) (ht : I t)
    (hanswers : ∀ n ∈ unmarkedIn w.marked ps,
      answers.lookup n = (g.queryAll (unmarkedIn w.marked ps) s).1.lookup n)
    (hanswers' : ∀ n ∈ unmarkedIn w.marked ps,
      answers'.lookup n = (g.queryAll (unmarkedIn w.marked ps) t).1.lookup n) :
    let o := g.applyWave answers ps w (g.queryAll (unmarkedIn w.marked ps) s).2
    o.error = none → le o.state t →
      g.applyWave answers' ps w (g.queryAll (unmarkedIn w.marked ps) t).2 = ⟨o.walk, t, none⟩ := by
  induction ps generalizing w s with
  | nil => exact fun _ _ => rfl
  | cons p ps ih =>
    by_cases hp : p.node ∈ w.marked
    · rw [unmarkedIn_cons_of_mem hp] at hanswers hanswers' ⊢
      rw [applyWave, if_pos hp, applyWave, if_pos hp]
      exact ih w.skip hs hanswers hanswers'
    · rw [unmarkedIn_cons_of_not_mem hp] at hanswers hanswers' ⊢
      rcases hq : g.query p.node s with ⟨answer, s₁⟩
      have hs₁ : I s₁ := (congrArg (I ·.2) hq).mp (h.keeps hs p.node)
      simp only [queryAll, hq] at hanswers ⊢
      have hanswer : answers.lookup p.node = some answer := by
        rw [hanswers _ List.mem_cons_self]
        simp
      rw [applyWave, if_neg hp, answerFor, hanswer]
      cases answer with
      | error cause =>
        intro herror
        cases herror
      | ok deps =>
        intro herror hle
        have hfirst : le s₁ t :=
          h.trans (applyWave_keeps (h.keeps_le s₁) (queryAll_keeps (h.keeps_le s₁) _ (h.refl s₁))) hle
        have hq' := h.again hs ht hq hfirst
        simp only [queryAll, hq'] at hanswers' ⊢
        have hanswer' : answers'.lookup p.node = some (.ok deps) := by
          rw [hanswers' _ List.mem_cons_self]
          simp
        rw [applyWave, if_neg hp, answerFor, hanswer']
        have hrest := ih (w.mark p deps) hs₁
        rw [Walk.mark_marked] at hrest
        refine hrest (fun n hn => ?_) (fun n hn => ?_) herror hle
        · rw [hanswers n (List.mem_cons_of_mem _ hn), List.lookup_cons,
            beq_false_of_ne (ne_of_mem_unmarkedIn hn)]
        · rw [hanswers' n (List.mem_cons_of_mem _ hn), List.lookup_cons,
            beq_false_of_ne (ne_of_mem_unmarkedIn hn)]

theorem wave_again (hs : I s) (ht : I t) (herror : (g.wave w s).error = none)
    (hle : le (g.wave w s).state t) : g.wave w t = ⟨(g.wave w s).walk, t, none⟩ :=
  h.applyWave_again _ _ w.pending w.beginWave hs ht (fun _ _ => rfl) (fun _ _ => rfl) herror hle

theorem drainWaves_again (hs : I s) (ht : I t) (herror : (g.drainWaves w s).error = none)
    (hle : le (g.drainWaves w s).state t) :
    g.drainWaves w t = ⟨(g.drainWaves w s).walk, t, none⟩ := by
  fun_induction drainWaves g w s with
  | case1 w s hw => rw [drainWaves, dif_pos hw]
  | case2 w s hw w' s' ho ih =>
    have hs' : I s' := (congrArg (I ·.state) ho).mp (wave_keeps h.keeps hs)
    have hlater : le s' t := h.trans (drainWaves_keeps (h.keeps_le s') (h.refl s')) hle
    have hwave := h.wave_again (w := w) hs ht (by rw [ho]) (by rwa [ho])
    rw [ho] at hwave
    rw [g.drainWaves_of_wave hw hwave, ih hs' herror hle]
  | case3 w s hw hfail => exact (hfail _ _ (by rw [← herror])).elim

/-- A walk that came to its end comes to it again, of either kind. -/
theorem walk_again (inWaves : Bool) (hs : I s) (ht : I t)
    (herror : (g.walk inWaves w s).error = none)
    (hle : le (g.walk inWaves w s).state t) :
    g.walk inWaves w t = ⟨(g.walk inWaves w s).walk, t, none⟩ := by
  cases inWaves with
  | true => exact h.drainWaves_again hs ht herror hle
  | false =>
    have hpending := g.pending_of_drain herror
    exact (h.drain_again hs ht hle).trans (g.drain_nil hpending t)

end Repeats

end AheadOfTime.Graph
