import AheadOfTime.Proofs.Marking.Lockstep
import Mathlib.Data.Option.Basic

/-! Graphs that differ in their words. Let two graphs go through the same states and give the same
answers, except that each tells a failure in its own words. Then a walk of either kind over the one
goes the way of the walk over the other, into the same state, and fails at the same mark if it fails,
with the words of its own graph for the cause (`walk_reworded`). -/

namespace AheadOfTime

/-- The same answer, or two failures that tell the same in words of their own. -/
inductive Reworded {ε α : Type} (E : ε → ε → Prop) : Except ε α → Except ε α → Prop where
  | ok (a : α) : Reworded E (.ok a) (.ok a)
  | error {e e' : ε} (h : E e e') : Reworded E (.error e) (.error e')

structure WalkError.Reworded {ε : Type} (E : ε → ε → Prop) (e e' : WalkError ε) : Prop where
  node : e.node = e'.node
  path : e.path = e'.path
  cause : E e.cause e'.cause

theorem Walk.failure_reworded {ε : Type} {E : ε → ε → Prop} {e e' : ε} (h : E e e') (w : Walk)
    (name : NodeId → String) (p : Candidate) :
    WalkError.Reworded E (w.failure name p e) (w.failure name p e') :=
  ⟨rfl, rfl, h⟩

theorem Option.rel_none_left {α γ : Type} {R : α → γ → Prop} {y : Option γ} :
    Option.Rel R none y ↔ y = none := by
  constructor
  · rintro ⟨⟩
    rfl
  · rintro rfl
    exact .none

theorem Option.rel_some_left {α γ : Type} {R : α → γ → Prop} {a : α} {y : Option γ} :
    Option.Rel R (some a) y ↔ ∃ b, y = some b ∧ R a b := by
  constructor
  · rintro (⟨h⟩ | _)
    exact ⟨_, rfl, h⟩
  · rintro ⟨b, rfl, h⟩
    exact .some h

structure Outcome.Reworded {σ ε : Type} (E : ε → ε → Prop) (a b : Outcome σ ε) : Prop where
  walk : a.walk = b.walk
  state : a.state = b.state
  error : Option.Rel (WalkError.Reworded E) a.error b.error

/-- Answers about the same nodes, in the same order. -/
abbrev AnswersReworded {ε : Type} (E : ε → ε → Prop) :
    List (NodeId × Except ε Dependencies) → List (NodeId × Except ε Dependencies) → Prop :=
  List.Forall₂ fun a b => a.1 = b.1 ∧ Reworded E a.2 b.2

theorem AnswersReworded.lookup {ε : Type} {E : ε → ε → Prop}
    {as bs : List (NodeId × Except ε Dependencies)} (h : AnswersReworded E as bs) (n : NodeId) :
    Option.Rel (Reworded E) (as.lookup n) (bs.lookup n) := by
  induction h with
  | nil => exact .none
  | @cons a b as bs hab _ ih =>
    obtain ⟨m, x⟩ := a
    obtain ⟨m', y⟩ := b
    obtain ⟨rfl, hxy⟩ := hab
    rw [List.lookup_cons, List.lookup_cons]
    cases n == m with
    | true => exact .some hxy
    | false => exact ih

namespace Graph

variable {σ ε : Type}

/-- In states of a kind the second graph does what the first does and says what it says, failures in
words of its own. -/
structure Rewords (g h : Graph σ ε) (I : σ → Prop) (E : ε → ε → Prop) : Prop where
  keeps : g.Keeps I
  name : g.name = h.name
  state : ∀ {s}, I s → ∀ n, (g.query n s).2 = (h.query n s).2
  answer : ∀ {s}, I s → ∀ n, Reworded E (g.query n s).1 (h.query n s).1

namespace Rewords

variable {g h : Graph σ ε} {I : σ → Prop} {E : ε → ε → Prop} (hgh : g.Rewords h I E)
  {w : Walk} {s : σ} {n : NodeId}
include hgh

theorem query_ok (hs : I s) {deps : Dependencies} {s' : σ} (hq : g.query n s = (.ok deps, s')) :
    h.query n s = (.ok deps, s') := by
  have hstate := hgh.state hs n
  have hanswer := hgh.answer hs n
  rcases hq' : h.query n s with ⟨answer, s''⟩
  rw [hq, hq'] at hstate hanswer
  cases hstate
  cases hanswer
  rfl

theorem query_error (hs : I s) {e : ε} {s' : σ} (hq : g.query n s = (.error e, s')) :
    ∃ e', E e e' ∧ h.query n s = (.error e', s') := by
  have hstate := hgh.state hs n
  have hanswer := hgh.answer hs n
  rcases hq' : h.query n s with ⟨answer, s''⟩
  rw [hq, hq'] at hstate hanswer
  cases hstate
  cases hanswer with
  | error he => exact ⟨_, he, rfl⟩

theorem keeps_of_query (hs : I s) {answer : Except ε Dependencies} {s' : σ}
    (hq : g.query n s = (answer, s')) : I s' :=
  (congrArg (I ·.2) hq).mp (hgh.keeps hs n)

theorem drain_reworded (hs : I s) : Outcome.Reworded E (g.drain w s) (h.drain w s) := by
  fun_induction drain g w s with
  | case1 w s hw =>
    rw [drain_nil h hw]
    exact ⟨rfl, rfl, .none⟩
  | case2 w s p rest hw hp ih =>
    rw [drain_skip h hw hp]
    exact ih hs
  | case3 w s p rest hw hp cause s' hq =>
    obtain ⟨cause', hcause, hq'⟩ := hgh.query_error hs hq
    rw [drain_fail h hw hp hq', ← hgh.name]
    exact ⟨rfl, rfl, .some (w.failure_reworded hcause _ p)⟩
  | case4 w s p rest hw hp deps s' hq ih =>
    rw [drain_mark h hw hp (hgh.query_ok hs hq)]
    exact ih (hgh.keeps_of_query hs hq)

theorem queryAll_reworded (ns : List NodeId) (hs : I s) :
    (g.queryAll ns s).2 = (h.queryAll ns s).2 ∧
      AnswersReworded E (g.queryAll ns s).1 (h.queryAll ns s).1 := by
  induction ns generalizing s with
  | nil => exact ⟨rfl, .nil⟩
  | cons n ns ih =>
    obtain ⟨hstate, hanswers⟩ := ih (hgh.keeps hs n)
    simp only [queryAll, ← hgh.state hs n]
    exact ⟨hstate, .cons ⟨rfl, hgh.answer hs n⟩ hanswers⟩

theorem answerFor_reworded {as bs : List (NodeId × Except ε Dependencies)}
    (hanswers : AnswersReworded E as bs) (hs : I s) (n : NodeId) :
    (g.answerFor as n s).2 = (h.answerFor bs n s).2 ∧
      Reworded E (g.answerFor as n s).1 (h.answerFor bs n s).1 := by
  have hlookup := hanswers.lookup n
  unfold answerFor
  cases has : as.lookup n with
  | none =>
    rw [has, Option.rel_none_left] at hlookup
    rw [hlookup]
    exact ⟨hgh.state hs n, hgh.answer hs n⟩
  | some a =>
    rw [has, Option.rel_some_left] at hlookup
    obtain ⟨b, hbs, hab⟩ := hlookup
    rw [hbs]
    exact ⟨rfl, hab⟩

theorem applyWave_reworded {as bs : List (NodeId × Except ε Dependencies)}
    (hanswers : AnswersReworded E as bs) (ps : List Candidate) (w : Walk) (hs : I s) :
    Outcome.Reworded E (g.applyWave as ps w s) (h.applyWave bs ps w s) := by
  induction ps generalizing w s with
  | nil => exact ⟨rfl, rfl, .none⟩
  | cons p ps ih =>
    unfold applyWave
    by_cases hp : p.node ∈ w.marked
    · rw [if_pos hp, if_pos hp]
      exact ih w.skip hs
    · rw [if_neg hp, if_neg hp]
      obtain ⟨hstate, hanswer⟩ := hgh.answerFor_reworded hanswers hs p.node
      have hs' : I (g.answerFor as p.node s).2 := answerFor_keeps hgh.keeps as p.node hs
      rcases hq : g.answerFor as p.node s with ⟨x, s₁⟩
      rcases hq' : h.answerFor bs p.node s with ⟨y, s₂⟩
      rw [hq, hq'] at hstate hanswer
      rw [hq] at hs'
      cases hstate
      cases hanswer with
      | ok deps => exact ih (w.mark p deps) hs'
      | error hcause =>
        rw [← hgh.name]
        exact ⟨rfl, rfl, .some (Walk.failure_reworded hcause _ _ p)⟩

theorem wave_reworded (hs : I s) : Outcome.Reworded E (g.wave w s) (h.wave w s) := by
  obtain ⟨hstate, hanswers⟩ := hgh.queryAll_reworded w.waveNodes hs
  simp only [wave, ← hstate]
  exact hgh.applyWave_reworded hanswers w.pending w.beginWave (queryAll_keeps hgh.keeps _ hs)

theorem drainWaves_reworded (hs : I s) :
    Outcome.Reworded E (g.drainWaves w s) (h.drainWaves w s) := by
  fun_induction drainWaves g w s with
  | case1 w s hw =>
    rw [drainWaves, dif_pos hw]
    exact ⟨rfl, rfl, .none⟩
  | case2 w s hw w' s' ho ih =>
    have hwave := hgh.wave_reworded (w := w) hs
    have hs' : I s' := (congrArg (I ·.state) ho).mp (wave_keeps hgh.keeps hs)
    rcases ho' : h.wave w s with ⟨w'', s'', error⟩
    rw [ho, ho'] at hwave
    obtain ⟨hwalk, hstate, herror⟩ := hwave
    cases hwalk
    cases hstate
    cases herror
    rw [drainWaves_of_wave h hw ho']
    exact ih hs'
  | case3 w s hw hfail =>
    have hwave := hgh.wave_reworded (w := w) hs
    have herror := hwave.error
    cases he : (g.wave w s).error with
    | none => exact (hfail _ _ (by rw [← he])).elim
    | some e =>
      rw [he, Option.rel_some_left] at herror
      obtain ⟨e', he', -⟩ := herror
      rw [h.drainWaves_of_error he']
      exact hwave

theorem walk_reworded (inWaves : Bool) (hs : I s) :
    Outcome.Reworded E (g.walk inWaves w s) (h.walk inWaves w s) := by
  cases inWaves with
  | false => exact hgh.drain_reworded hs
  | true => exact hgh.drainWaves_reworded hs

end Rewords

end Graph

end AheadOfTime
