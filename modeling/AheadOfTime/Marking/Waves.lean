import AheadOfTime.Marking.Walk

/-! The walk in waves: everything pending is taken at once, all its questions are asked, and then
the answers are used in the order of the queue. -/

namespace AheadOfTime

/-- The distinct nodes of a wave that are not marked, in the order of the queue. -/
def Walk.waveNodes (w : Walk) : List NodeId :=
  ((w.pending.map (·.node)).filter (· ∉ w.marked)).eraseDups

/-- Takes everything out of the queue. -/
def Walk.beginWave (w : Walk) : Walk :=
  { w with pending := [], counters := { w.counters with waves := w.counters.waves + 1 } }

namespace Graph

variable {σ ε : Type}

/-- Asks each node in turn; a question that fails does not stop the others. -/
def queryAll (g : Graph σ ε) : List NodeId → σ → List (NodeId × Except ε Dependencies) × σ
  | [], s => ([], s)
  | n :: ns, s =>
    let (answer, s) := g.query n s
    let (answers, s) := g.queryAll ns s
    ((n, answer) :: answers, s)

/-- The answer for a node, asked for now if the wave has none. -/
def answerFor (g : Graph σ ε) (answers : List (NodeId × Except ε Dependencies)) (n : NodeId)
    (s : σ) : Except ε Dependencies × σ :=
  match answers.lookup n with
  | some answer => (answer, s)
  | none => g.query n s

/-- Uses the answers for the marks of a wave. After a failure the queue is what it would be if the
marks had been taken one by one. -/
def applyWave (g : Graph σ ε) (answers : List (NodeId × Except ε Dependencies)) :
    List Candidate → Walk → σ → Outcome σ ε
  | [], w, s => ⟨w, s, none⟩
  | p :: rest, w, s =>
    if p.node ∈ w.marked then g.applyWave answers rest w.skip s
    else
      match g.answerFor answers p.node s with
      | (.error cause, s) =>
        ⟨{ w with pending := p :: rest ++ w.pending }, s, some (w.failure (g.name s) p cause)⟩
      | (.ok deps, s) => g.applyWave answers rest (w.mark p deps) s

/-- One wave. -/
def wave (g : Graph σ ε) (w : Walk) (s : σ) : Outcome σ ε :=
  let (answers, s) := g.queryAll w.waveNodes s
  g.applyWave answers w.pending w.beginWave s

theorem applyWave_unlisted_le (g : Graph σ ε) (answers : List (NodeId × Except ε Dependencies))
    (ps : List Candidate) (w : Walk) (s : σ) :
    NodeId.unlisted (g.applyWave answers ps w s).walk.marked ≤ NodeId.unlisted w.marked := by
  induction ps generalizing w s with
  | nil => simp [applyWave]
  | cons p ps ih =>
    unfold applyWave
    split
    · exact ih w.skip s
    · rename_i hp
      split
      · exact Nat.le_refl _
      · exact Nat.le_trans (ih ..) (Nat.le_of_lt (by simpa using NodeId.unlisted_lt hp))

theorem applyWave_progress (g : Graph σ ε) (answers : List (NodeId × Except ε Dependencies))
    (ps : List Candidate) (w : Walk) (s : σ) (h : (g.applyWave answers ps w s).error = none) :
    NodeId.unlisted (g.applyWave answers ps w s).walk.marked < NodeId.unlisted w.marked ∨
      (g.applyWave answers ps w s).walk.pending = w.pending ∧
        (g.applyWave answers ps w s).walk.marked = w.marked := by
  induction ps generalizing w s with
  | nil => simp [applyWave]
  | cons p ps ih =>
    unfold applyWave at h ⊢
    by_cases hp : p.node ∈ w.marked
    · rw [if_pos hp] at h ⊢; exact ih w.skip s h
    · rw [if_neg hp] at h ⊢
      rcases hq : g.answerFor answers p.node s with ⟨cause | deps, s'⟩
      · simp [hq] at h
      · exact .inl (Nat.lt_of_le_of_lt (applyWave_unlisted_le ..)
          (by simpa using NodeId.unlisted_lt hp))

/-- Takes waves until nothing is pending or a question fails. -/
def drainWaves (g : Graph σ ε) (w : Walk) (s : σ) : Outcome σ ε :=
  if _hw : w.pending = [] then ⟨w, s, none⟩
  else
    match _ho : g.wave w s with
    | ⟨w', s', none⟩ => drainWaves g w' s'
    | outcome => outcome
termination_by (NodeId.unlisted w.marked, w.pending.length)
decreasing_by
  have h := applyWave_progress g (g.queryAll w.waveNodes s).1 w.pending w.beginWave
    (g.queryAll w.waveNodes s).2
  simp only [wave] at _ho
  rw [_ho] at h
  rcases h rfl with h | ⟨hp, hm⟩
  · left; exact h
  · have hm' : w'.marked = w.marked := hm
    have hp' : w'.pending = [] := hp
    rw [hm', hp']
    right
    exact List.length_pos_iff.mpr _hw

theorem pending_of_drainWaves (g : Graph σ ε) {w : Walk} {s : σ}
    (h : (g.drainWaves w s).error = none) : (g.drainWaves w s).walk.pending = [] := by
  fun_induction drainWaves g w s with
  | case1 w s hw => exact hw
  | case2 w s hw w' s' ho ih => exact ih h
  | case3 w s hw hfail => exact (hfail _ _ (by rw [← h])).elim

end Graph

end AheadOfTime
