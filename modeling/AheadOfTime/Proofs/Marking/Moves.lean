import AheadOfTime.Marking.Command
import AheadOfTime.Proofs.Marking.Mark
import Mathlib.Logic.Relation

/-! Walks as sequences of moves. Both walks over any graph consist of the same moves, made with
answers that the graph gave (`drain_moves`, `drainWaves_moves`); what every move keeps therefore
holds wherever a walk stops. -/

namespace AheadOfTime

namespace Walk

/-- Puts marks back at the front of the queue. -/
def putBack (ps : List Candidate) (w : Walk) : Walk := { w with pending := ps ++ w.pending }

def countWave (w : Walk) : Walk :=
  { w with counters := { w.counters with waves := w.counters.waves + 1 } }

/-- One move: the next mark comes too late, or it is made with an answer about its node, or a wave
begins. -/
inductive Move (answers : NodeId → Dependencies → Prop) : Walk → Walk → Prop where
  | skip {w p rest} (hw : w.pending = p :: rest) (hp : p.node ∈ w.marked) :
      Move answers w { w with pending := rest }.skip
  | mark {w p rest deps} (hw : w.pending = p :: rest) (hp : p.node ∉ w.marked)
      (ha : answers p.node deps) : Move answers w ({ w with pending := rest }.mark p deps)
  | wave {w} : Move answers w w.countWave

abbrev Moves (answers : NodeId → Dependencies → Prop) : Walk → Walk → Prop :=
  Relation.ReflTransGen (Move answers)

theorem putBack_beginWave (w : Walk) : w.beginWave.putBack w.pending = w.countWave := by
  simp [putBack, beginWave, countWave]

/-- Marking looks at the queue only to add to its end. -/
theorem putBack_mark (p : Candidate) (ps : List Candidate) (w : Walk) (deps : Dependencies) :
    { w.putBack (p :: ps) with pending := ps ++ w.pending }.mark p deps =
      (w.mark p deps).putBack ps := by
  simp [mark_eq, putBack, traversed, waiting]

variable {A B : NodeId → Dependencies → Prop} {w v : Walk} {p : Candidate} {ps : List Candidate}

theorem Move.skip_putBack (hp : p.node ∈ w.marked) :
    Move A (w.putBack (p :: ps)) (w.skip.putBack ps) :=
  .skip rfl hp

theorem Move.mark_putBack {deps : Dependencies} (hp : p.node ∉ w.marked) (ha : A p.node deps) :
    Move A (w.putBack (p :: ps)) ((w.mark p deps).putBack ps) := by
  have hpending : (w.putBack (p :: ps)).pending = p :: (ps ++ w.pending) := rfl
  have hm := Move.mark hpending hp ha
  rwa [putBack_mark] at hm

theorem Move.mono (hAB : ∀ n deps, A n deps → B n deps) (h : Move A w v) : Move B w v := by
  cases h with
  | skip hw hp => exact .skip hw hp
  | mark hw hp ha => exact .mark hw hp (hAB _ _ ha)
  | wave => exact .wave

theorem Moves.mono (hAB : ∀ n deps, A n deps → B n deps) (h : Moves A w v) : Moves B w v := by
  induction h with
  | refl => exact .refl
  | tail _ hm ih => exact .tail ih (hm.mono hAB)

end Walk

namespace Graph

variable {σ ε : Type} {g : Graph σ ε} {I : σ → Prop}
  {given : σ → NodeId → Except ε Dependencies → Prop}

/-- No question changes that the state of a graph is such. -/
def Keeps (g : Graph σ ε) (J : σ → Prop) : Prop := ∀ ⦃s⦄, J s → ∀ n, J (g.query n s).2

/-- What holds of the states of a graph, whatever it is asked, and which answers it gave before it
came to a state. -/
structure Answers (g : Graph σ ε) (I : σ → Prop)
    (given : σ → NodeId → Except ε Dependencies → Prop) : Prop where
  keeps : g.Keeps I
  gives : ∀ {s}, I s → ∀ n, given (g.query n s).2 n (g.query n s).1
  lasts : ∀ {s m a}, I s → given s m a → ∀ n, given (g.query n s).2 m a

section Keeping

variable {J : σ → Prop} (hJ : g.Keeps J)
include hJ

theorem drain_keeps {w : Walk} {s : σ} (hs : J s) : J (g.drain w s).state := by
  fun_induction drain g w s with
  | case1 w s hw => exact hs
  | case2 w s p rest hw hp ih => exact ih hs
  | case3 w s p rest hw hp cause s' hq => exact (congrArg (J ·.2) hq).mp (hJ hs p.node)
  | case4 w s p rest hw hp deps s' hq ih =>
    exact ih ((congrArg (J ·.2) hq).mp (hJ hs p.node))

theorem queryAll_keeps (ns : List NodeId) {s : σ} (hs : J s) : J (g.queryAll ns s).2 := by
  induction ns generalizing s with
  | nil => exact hs
  | cons n ns ih => exact ih (hJ hs n)

theorem answerFor_keeps (answers : List (NodeId × Except ε Dependencies)) (n : NodeId) {s : σ}
    (hs : J s) : J (g.answerFor answers n s).2 := by
  unfold answerFor
  split
  · exact hs
  · exact hJ hs n

theorem applyWave_keeps {answers : List (NodeId × Except ε Dependencies)} {ps : List Candidate}
    {w : Walk} {s : σ} (hs : J s) : J (g.applyWave answers ps w s).state := by
  induction ps generalizing w s with
  | nil => exact hs
  | cons p ps ih =>
    have hs' : J (g.answerFor answers p.node s).2 := answerFor_keeps hJ answers p.node hs
    unfold applyWave
    split
    · exact ih hs
    · split <;> rename_i hq <;> rw [hq] at hs'
      · exact hs'
      · exact ih hs'

theorem wave_keeps {w : Walk} {s : σ} (hs : J s) : J (g.wave w s).state :=
  applyWave_keeps hJ (queryAll_keeps hJ w.waveNodes hs)

theorem drainWaves_keeps {w : Walk} {s : σ} (hs : J s) : J (g.drainWaves w s).state := by
  fun_induction drainWaves g w s with
  | case1 w s hw => exact hs
  | case2 w s hw w' s' ho ih => exact ih ((congrArg (J ·.state) ho).mp (wave_keeps hJ hs))
  | case3 w s hw _ => exact wave_keeps hJ hs

theorem walk_keeps (inWaves : Bool) {w : Walk} {s : σ} (hs : J s) :
    J (g.walk inWaves w s).state := by
  cases inWaves with
  | false => exact drain_keeps hJ hs
  | true => exact drainWaves_keeps hJ hs

end Keeping

namespace Answers

variable (h : g.Answers I given)
include h

/-- An answer that was given stays given. -/
theorem keeps_given (m : NodeId) (a : Except ε Dependencies) :
    g.Keeps fun s => I s ∧ given s m a :=
  fun _ hs n => ⟨h.keeps hs.1 n, h.lasts hs.1 hs.2 n⟩

theorem drain_moves {w : Walk} {s : σ} (hs : I s) :
    Walk.Moves (fun n deps => given (g.drain w s).state n (.ok deps)) w (g.drain w s).walk := by
  fun_induction drain g w s with
  | case1 w s hw => exact .refl
  | case2 w s p rest hw hp ih => exact .head (.skip hw hp) (ih hs)
  | case3 w s p rest hw hp cause s' hq => exact .refl
  | case4 w s p rest hw hp deps s' hq ih =>
    have hs' : I s' := (congrArg (I ·.2) hq).mp (h.keeps hs p.node)
    have ha : given s' p.node (.ok deps) := by
      have := h.gives hs p.node
      rwa [hq] at this
    exact .head (.mark hw hp (drain_keeps (h.keeps_given _ _) ⟨hs', ha⟩).2) (ih hs')

theorem given_of_mem_queryAll {ns : List NodeId} {s : σ} (hs : I s) {n : NodeId}
    {a : Except ε Dependencies} (ha : (n, a) ∈ (g.queryAll ns s).1) :
    given (g.queryAll ns s).2 n a := by
  induction ns generalizing s with
  | nil => simp [queryAll] at ha
  | cons m ns ih =>
    rcases List.mem_cons.mp ha with hm | ha
    · cases hm
      exact (queryAll_keeps (h.keeps_given _ _) ns ⟨h.keeps hs n, h.gives hs n⟩).2
    · exact ih (h.keeps hs m) ha

theorem given_answerFor {answers : List (NodeId × Except ε Dependencies)} {s : σ} (hs : I s)
    (hanswers : ∀ a ∈ answers, given s a.1 a.2) (n : NodeId) :
    given (g.answerFor answers n s).2 n (g.answerFor answers n s).1 := by
  unfold answerFor
  split
  · rename_i a ha
    obtain ⟨l₁, l₂, rfl, -⟩ := List.lookup_eq_some_iff.mp ha
    exact hanswers (n, a) (by simp)
  · exact h.gives hs n

/-- The marks of a wave are moves from the state in which all of them are still in the queue. -/
theorem applyWave_moves {answers : List (NodeId × Except ε Dependencies)} (ps : List Candidate)
    (w : Walk) {s : σ} (hs : I s) (hanswers : ∀ a ∈ answers, given s a.1 a.2) :
    Walk.Moves (fun n deps => given (g.applyWave answers ps w s).state n (.ok deps))
      (w.putBack ps) (g.applyWave answers ps w s).walk := by
  induction ps generalizing w s with
  | nil => exact .refl
  | cons p ps ih =>
    unfold applyWave
    by_cases hp : p.node ∈ w.marked
    · rw [if_pos hp]
      exact .head (.skip_putBack hp) (ih _ hs hanswers)
    · rw [if_neg hp]
      have hs' := answerFor_keeps h.keeps answers p.node hs
      have ha := h.given_answerFor hs hanswers p.node
      have hanswers' : ∀ a ∈ answers, given (g.answerFor answers p.node s).2 a.1 a.2 :=
        fun a ha => (answerFor_keeps (h.keeps_given _ _) answers p.node ⟨hs, hanswers a ha⟩).2
      rcases hq : g.answerFor answers p.node s with ⟨cause | deps, s'⟩
      · exact .refl
      · rw [hq] at hs' ha hanswers'
        exact .head (.mark_putBack hp (applyWave_keeps (h.keeps_given _ _) ⟨hs', ha⟩).2)
          (ih _ hs' hanswers')

theorem wave_moves {w : Walk} {s : σ} (hs : I s) :
    Walk.Moves (fun n deps => given (g.wave w s).state n (.ok deps)) w (g.wave w s).walk := by
  have hmoves := h.applyWave_moves w.pending w.beginWave (queryAll_keeps h.keeps w.waveNodes hs)
    fun a ha => h.given_of_mem_queryAll hs ha
  rw [Walk.putBack_beginWave] at hmoves
  exact .head .wave hmoves

theorem drainWaves_moves {w : Walk} {s : σ} (hs : I s) :
    Walk.Moves (fun n deps => given (g.drainWaves w s).state n (.ok deps)) w
      (g.drainWaves w s).walk := by
  fun_induction drainWaves g w s with
  | case1 w s hw => exact .refl
  | case2 w s hw w' s' ho ih =>
    have hs' : I s' := (congrArg (I ·.state) ho).mp (wave_keeps h.keeps hs)
    have hmoves := h.wave_moves (w := w) hs
    rw [ho] at hmoves
    exact .trans
      (hmoves.mono fun _ _ ha => (drainWaves_keeps (h.keeps_given _ _) ⟨hs', ha⟩).2) (ih hs')
  | case3 w s hw _ => exact h.wave_moves hs

theorem walk_moves (inWaves : Bool) {w : Walk} {s : σ} (hs : I s) :
    Walk.Moves (fun n deps => given (g.walk inWaves w s).state n (.ok deps)) w
      (g.walk inWaves w s).walk := by
  cases inWaves with
  | false => exact h.drain_moves hs
  | true => exact h.drainWaves_moves hs

end Answers

end Graph

/-- A fixed graph gives the answers that it has. -/
theorem FixedGraph.answers {ε : Type} (g : FixedGraph ε) :
    g.toGraph.Answers (fun _ => True) fun _ n a => a = g.query n where
  keeps _ _ _ := trivial
  gives _ n := by rw [g.query_toGraph]
  lasts _ ha _ := ha

end AheadOfTime
