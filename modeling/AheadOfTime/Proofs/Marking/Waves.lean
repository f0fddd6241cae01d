import AheadOfTime.Proofs.Marking.Moves
import Mathlib

/-! The walk in waves over a fixed graph ends like the walk that takes marks one by one, whether it
fails or not: only the count of waves tells the two apart (`Outcome.Alike`). A position within a
wave corresponds to the queue in which the rest of the wave stands before what was asked for since
(`drain_putBack`). -/

namespace AheadOfTime

def Counters.apartFromWaves (c : Counters) : Counters := { c with waves := 0 }

/-- A walk without its count of waves. -/
def Walk.apartFromWaves (w : Walk) : Walk := { w with counters := w.counters.apartFromWaves }

namespace Outcome

variable {σ ε : Type}

def apartFromWaves (o : Outcome σ ε) : Outcome σ ε := { o with walk := o.walk.apartFromWaves }

/-- Nothing but the count of waves tells two outcomes apart. -/
structure Alike (a b : Outcome σ ε) : Prop where
  error : a.error = b.error
  state : a.state = b.state
  marked : a.walk.marked = b.walk.marked
  pending : a.walk.pending = b.walk.pending
  deferred : a.walk.deferred = b.walk.deferred
  record : a.walk.record = b.walk.record
  counters : a.walk.counters.apartFromWaves = b.walk.counters.apartFromWaves
  report : ∀ name, a.walk.report name = b.walk.report name

theorem alike_iff {a b : Outcome σ ε} : a.Alike b ↔ a.apartFromWaves = b.apartFromWaves := by
  obtain ⟨⟨⟩, _, _⟩ := a
  obtain ⟨⟨⟩, _, _⟩ := b
  constructor
  · rintro ⟨rfl, rfl, rfl, rfl, rfl, rfl, hc, -⟩
    simp_all [apartFromWaves, Walk.apartFromWaves]
  · intro h
    simp only [apartFromWaves, Walk.apartFromWaves, Outcome.mk.injEq, Walk.mk.injEq] at h
    obtain ⟨⟨rfl, rfl, rfl, hc, rfl⟩, rfl, rfl⟩ := h
    exact ⟨rfl, rfl, rfl, rfl, rfl, rfl, hc, fun _ => rfl⟩

end Outcome

namespace Walk

theorem apartFromWaves_mark (w : Walk) (p : Candidate) (deps : Dependencies) :
    (w.mark p deps).apartFromWaves = w.apartFromWaves.mark p deps := by
  simp [mark_eq, apartFromWaves, Counters.apartFromWaves, traversed, waiting]

/-- What is told of a failure depends on the record of the walk alone. -/
theorem failure_eq {ε : Type} {v w : Walk} (h : v.record = w.record) (name : NodeId → String)
    (p : Candidate) (cause : ε) : v.failure name p cause = w.failure name p cause := by
  simp only [failure, trailTo, h]

theorem apartFromWaves_countWave (w : Walk) : w.countWave.apartFromWaves = w.apartFromWaves := rfl

end Walk

namespace Graph

variable {σ ε : Type} (g : Graph σ ε)

/-- The count of waves is never looked at. -/
theorem drain_apartFromWaves (w : Walk) (s : σ) :
    (g.drain w s).apartFromWaves = g.drain w.apartFromWaves s := by
  fun_induction drain g w s with
  | case1 w s hw => rw [drain_nil g (w := w.apartFromWaves) hw]; rfl
  | case2 w s p rest hw hp ih => rw [ih, drain_skip g (w := w.apartFromWaves) hw hp]; rfl
  | case3 w s p rest hw hp cause s' hq =>
    rw [drain_fail g (w := w.apartFromWaves) hw hp hq]; rfl
  | case4 w s p rest hw hp deps s' hq ih =>
    rw [ih, Walk.apartFromWaves_mark, drain_mark g (w := w.apartFromWaves) hw hp hq]; rfl

/-- Further questions lead from one state to another. -/
abbrev Reach : σ → σ → Prop := Relation.ReflTransGen fun s s' => ∃ n, s' = (g.query n s).2

variable {g} in
theorem Reach.keeps {J : σ → Prop} (hJ : g.Keeps J) {s s' : σ} (h : g.Reach s s') (hs : J s) :
    J s' := by
  induction h with
  | refl => exact hs
  | tail _ h ih =>
    obtain ⟨n, rfl⟩ := h
    exact hJ ih n

theorem queryAll_reach (ns : List NodeId) (s : σ) : g.Reach s (g.queryAll ns s).2 := by
  induction ns generalizing s with
  | nil => exact .refl
  | cons n ns ih => exact .head ⟨n, rfl⟩ (ih _)

/-- A walk stopped at a mark, for want of an answer about its node. -/
structure StoppedAt (p : Candidate) (cause : ε) (o : Outcome σ ε) : Prop where
  pending : ∃ rest, o.walk.pending = p :: rest
  error : o.error = some (o.walk.failure (g.name o.state) p cause)

/-- Two outcomes agree up to the count of waves. If they are of walks that failed, the first walk
has gone on asking after the question that failed, and tells names as they are then. -/
inductive Matches (a b : Outcome σ ε) : Prop where
  | through (ha : a.error = none) (hab : a.apartFromWaves = b.apartFromWaves)
  | stopped (p : Candidate) (cause : ε) (hwalk : a.walk.apartFromWaves = b.walk.apartFromWaves)
    (ha : g.StoppedAt p cause a) (hb : g.StoppedAt p cause b)
    (hasked : ∃ s, g.query p.node s = (.error cause, b.state)) (hreach : g.Reach b.state a.state)

variable {g} in
theorem Matches.apart {a a' b b' : Outcome σ ε} (h : g.Matches a b)
    (ha : a.apartFromWaves = a'.apartFromWaves) (hb : b.apartFromWaves = b'.apartFromWaves) :
    g.Matches a' b' := by
  obtain ⟨⟨⟩, _, _⟩ := a
  obtain ⟨⟨⟩, _, _⟩ := a'
  obtain ⟨⟨⟩, _, _⟩ := b
  obtain ⟨⟨⟩, _, _⟩ := b'
  simp only [Outcome.apartFromWaves, Walk.apartFromWaves, Outcome.mk.injEq, Walk.mk.injEq] at ha hb
  obtain ⟨⟨rfl, rfl, rfl, hca, rfl⟩, rfl, rfl⟩ := ha
  obtain ⟨⟨rfl, rfl, rfl, hcb, rfl⟩, rfl, rfl⟩ := hb
  cases h with
  | through ha hab =>
    refine .through ha ?_
    simpa [Outcome.apartFromWaves, Walk.apartFromWaves, hca, hcb] using hab
  | stopped p cause hwalk ha hb hasked hreach =>
    refine .stopped p cause ?_ ⟨ha.pending, ha.error⟩ ⟨hb.pending, hb.error⟩ hasked hreach
    simpa [Walk.apartFromWaves, hca, hcb] using hwalk

end Graph

/-- The distinct nodes of some marks that are not marked, in the order of the marks. -/
def unmarkedIn (marked : List NodeId) (ps : List Candidate) : List NodeId :=
  ((ps.map (·.node)).filter (· ∉ marked)).eraseDups

theorem unmarkedIn_cons_of_mem {marked : List NodeId} {p : Candidate} (hp : p.node ∈ marked)
    (ps : List Candidate) : unmarkedIn marked (p :: ps) = unmarkedIn marked ps := by
  simp [unmarkedIn, hp]

theorem unmarkedIn_cons_of_not_mem {marked : List NodeId} {p : Candidate} (hp : p.node ∉ marked)
    (ps : List Candidate) :
    unmarkedIn marked (p :: ps) = p.node :: unmarkedIn (marked ++ [p.node]) ps := by
  simp [unmarkedIn, hp, List.eraseDups_cons, List.filter_filter, and_comm]
  rfl

theorem ne_of_mem_unmarkedIn {marked : List NodeId} {n m : NodeId} {ps : List Candidate}
    (hm : m ∈ unmarkedIn (marked ++ [n]) ps) : m ≠ n := by
  simp only [unmarkedIn, List.mem_eraseDups, List.mem_filter] at hm
  rintro rfl
  simp at hm

theorem not_mem_of_mem_unmarkedIn {marked : List NodeId} {n : NodeId} {ps : List Candidate}
    (hn : n ∈ unmarkedIn marked ps) : n ∉ marked := by
  rw [unmarkedIn, List.mem_eraseDups, List.mem_filter] at hn
  exact of_decide_eq_true hn.2

theorem nodup_unmarkedIn (marked : List NodeId) (ps : List Candidate) :
    (unmarkedIn marked ps).Nodup := by
  induction ps generalizing marked with
  | nil => exact List.nodup_nil
  | cons p ps ih =>
    by_cases hp : p.node ∈ marked
    · rw [unmarkedIn_cons_of_mem hp]
      exact ih marked
    · rw [unmarkedIn_cons_of_not_mem hp, List.nodup_cons]
      exact ⟨fun hn => ne_of_mem_unmarkedIn hn rfl, ih _⟩

namespace Graph

variable {σ ε : Type} (g : Graph σ ε)

theorem queryAll_cons {n : NodeId} {s s' : σ} {answer : Except ε Dependencies}
    (hq : g.query n s = (answer, s')) (ns : List NodeId) : g.queryAll (n :: ns) s =
      ((n, answer) :: (g.queryAll ns s').1, (g.queryAll ns s').2) := by
  rw [queryAll, hq]

/-- Going through a wave is going through the queue that holds the wave and, behind it, what was
asked for since the wave began: the questions are the same and come in the same order. At the first
that fails the walk one by one stops asking. -/
theorem applyWave_matches (answers : List (NodeId × Except ε Dependencies)) (ps : List Candidate)
    (w : Walk) (s : σ)
    (hanswers : ∀ n ∈ unmarkedIn w.marked ps,
      answers.lookup n = (g.queryAll (unmarkedIn w.marked ps) s).1.lookup n) :
    let o := g.applyWave answers ps w (g.queryAll (unmarkedIn w.marked ps) s).2
    (o.error = none ∧ g.drain (w.putBack ps) s = g.drain o.walk o.state) ∨
      (o.error ≠ none ∧ g.Matches o (g.drain (w.putBack ps) s)) := by
  induction ps generalizing w s with
  | nil => exact .inl ⟨rfl, rfl⟩
  | cons p ps ih =>
    have hw : (w.putBack (p :: ps)).pending = p :: (ps ++ w.pending) := rfl
    by_cases hp : p.node ∈ w.marked
    · rw [unmarkedIn_cons_of_mem hp] at hanswers ⊢
      rw [applyWave, if_pos hp, drain_skip _ hw hp]
      exact ih w.skip s hanswers
    · rw [unmarkedIn_cons_of_not_mem hp] at hanswers ⊢
      rcases hq : g.query p.node s with ⟨answer, s₁⟩
      rw [g.queryAll_cons hq] at hanswers ⊢
      have hanswer : answers.lookup p.node = some answer := by
        rw [hanswers _ List.mem_cons_self]
        simp
      rw [applyWave, if_neg hp, answerFor, hanswer]
      cases answer with
      | error cause =>
        rw [drain_fail _ hw hp hq]
        refine .inr ⟨Option.some_ne_none _, ?_⟩
        exact .stopped p cause rfl ⟨⟨_, rfl⟩, rfl⟩ ⟨⟨_, rfl⟩, rfl⟩ ⟨s, hq⟩ (g.queryAll_reach _ s₁)
      | ok deps =>
        rw [drain_mark _ hw hp hq, Walk.putBack_mark]
        have hmarked : (w.mark p deps).marked = w.marked ++ [p.node] := Walk.mark_marked w p deps
        have hrest := ih (w.mark p deps) s₁
        rw [hmarked] at hrest
        refine hrest fun n hn => ?_
        rw [hanswers n (List.mem_cons_of_mem _ hn), List.lookup_cons,
          beq_false_of_ne (ne_of_mem_unmarkedIn hn)]

theorem wave_matches (w : Walk) (s : σ) :
    ((g.wave w s).error = none ∧
      g.drain w.countWave s = g.drain (g.wave w s).walk (g.wave w s).state) ∨
      ((g.wave w s).error ≠ none ∧ g.Matches (g.wave w s) (g.drain w.countWave s)) := by
  rw [← Walk.putBack_beginWave]
  exact g.applyWave_matches _ w.pending w.beginWave s fun _ _ => rfl

/-- A wave that fails is the last. -/
theorem drainWaves_of_error {w : Walk} {s : σ} {e : WalkError ε}
    (he : (g.wave w s).error = some e) : g.drainWaves w s = g.wave w s := by
  have hw : w.pending ≠ [] := by
    intro hw
    simp [wave, hw, applyWave] at he
  rw [drainWaves, dif_neg hw]
  split
  · rename_i ho
    rw [ho] at he
    cases he
  · rfl

/-- The two kinds of walk match, from whatever walk and state. -/
theorem drainWaves_matches (w : Walk) (s : σ) :
    g.Matches (g.drainWaves w s) (g.drain w s) := by
  have hcount (w : Walk) (s : σ) :
      (g.drain w.countWave s).apartFromWaves = (g.drain w s).apartFromWaves := by
    rw [drain_apartFromWaves, drain_apartFromWaves, Walk.apartFromWaves_countWave]
  fun_induction drainWaves g w s with
  | case1 w s hw =>
    rw [drain_nil _ hw]
    exact .through rfl rfl
  | case2 w s hw w' s' ho ih =>
    rcases g.wave_matches w s with ⟨-, hgo⟩ | ⟨herror, -⟩
    · rw [ho] at hgo
      exact ih.apart rfl (by rw [← hgo, hcount])
    · rw [ho] at herror
      exact absurd rfl herror
  | case3 w s hw hfail =>
    rcases g.wave_matches w s with ⟨herror, -⟩ | ⟨-, hstop⟩
    · exact (hfail _ _ (by rw [← herror])).elim
    · exact hstop.apart rfl (hcount w s)

end Graph

namespace FixedGraph

variable {ε : Type} (g : FixedGraph ε)

theorem drainWaves_apartFromWaves (w : Walk) :
    (g.toGraph.drainWaves w ()).apartFromWaves = (g.toGraph.drain w ()).apartFromWaves := by
  cases g.toGraph.drainWaves_matches w () with
  | through ha hab => exact hab
  | stopped p cause hwalk ha hb hasked hreach =>
    have hrecord := congrArg Walk.record hwalk
    have herror := hb.error.trans (congrArg some (Walk.failure_eq hrecord _ p cause).symm)
    rw [Outcome.apartFromWaves, Outcome.apartFromWaves, hwalk, ha.error, herror]
    rfl

theorem walk_apartFromWaves (inWaves : Bool) (w : Walk) :
    (g.toGraph.walk inWaves w ()).apartFromWaves =
      g.toGraph.drain w.apartFromWaves () := by
  rw [← Graph.drain_apartFromWaves]
  cases inWaves with
  | false => rfl
  | true => exact g.drainWaves_apartFromWaves w

end FixedGraph

/-- A command without the kind of its walk. -/
def Command.eitherKind : Command → Command
  | .root n reason => .root n reason
  | .walk _ => .walk false

theorem Walk.apartFromWaves_addRoot (w : Walk) (n : NodeId) (reason : String) :
    (w.addRoot n reason).apartFromWaves = w.apartFromWaves.addRoot n reason := by
  simp [addRoot, enqueue_eq, apartFromWaves]

namespace FixedGraph

variable {ε : Type} (g : FixedGraph ε)

/-- A command cannot bring out what was alike before it. -/
theorem perform_apartFromWaves {a b : Outcome Unit ε}
    (hab : a.apartFromWaves = b.apartFromWaves) {c d : Command}
    (hcd : c.eitherKind = d.eitherKind) :
    (g.toGraph.perform a c).apartFromWaves = (g.toGraph.perform b d).apartFromWaves := by
  have hw : a.walk.apartFromWaves = b.walk.apartFromWaves := congrArg Outcome.walk hab
  cases c with
  | root n reason =>
    cases d with
    | root m reason' =>
      cases hcd
      simp only [Graph.perform, Outcome.apartFromWaves, Walk.apartFromWaves_addRoot, hw]
    | walk k => cases hcd
  | walk j =>
    cases d with
    | root m reason' => cases hcd
    | walk k =>
      have hj := g.walk_apartFromWaves j a.walk
      have hk := g.walk_apartFromWaves k b.walk
      simp only [Graph.perform]
      rw [hj, hk, hw]

theorem foldl_perform_apartFromWaves {a b : Outcome Unit ε}
    (hab : a.apartFromWaves = b.apartFromWaves) {cs ds : List Command}
    (hcd : cs.map Command.eitherKind = ds.map Command.eitherKind) :
    (cs.foldl g.toGraph.perform a).apartFromWaves =
      (ds.foldl g.toGraph.perform b).apartFromWaves := by
  induction cs generalizing ds a b with
  | nil =>
    obtain rfl : ds = [] := by simpa using hcd.symm
    exact hab
  | cons c cs ih =>
    cases ds with
    | nil => simp at hcd
    | cons d ds =>
      obtain ⟨hc, hcs⟩ := List.cons.inj hcd
      exact ih (g.perform_apartFromWaves hab hc) hcs

/-- From any state both kinds of walk come to the same end. So commands end alike whichever kinds
their walks are of. -/
theorem walks_alike :
    (∀ w, (g.toGraph.drainWaves w ()).Alike (g.toGraph.drain w ())) ∧
    ∀ level cs ds, cs.map Command.eitherKind = ds.map Command.eitherKind →
      (g.toGraph.performAll level () cs).Alike (g.toGraph.performAll level () ds) := by
  constructor
  · intro w
    exact Outcome.alike_iff.mpr (g.drainWaves_apartFromWaves w)
  · intro level cs ds h
    exact Outcome.alike_iff.mpr (g.foldl_perform_apartFromWaves rfl h)

/-- Node 0 leads to 1, 2 and 3, node 1 to 4 and 3, and node 2 does not answer. -/
def stalling : FixedGraph String where
  name := NodeId.label
  edges n := match n.index with
    | 0 => .ok [⟨.small 1, "a"⟩, ⟨.small 2, "b"⟩, ⟨.small 3, "c"⟩]
    | 1 => .ok [⟨.small 4, "d"⟩, ⟨.small 3, "e"⟩]
    | 2 => .error "no answer"
    | _ => .ok []
  conditional _ := .ok []

/-- The second wave fails half way, and the queue is the one that a walk one by one leaves. -/
theorem walks_alike_stalling :
    let root := Command.root (.small 0) "main"
    let ended := stalling.toGraph.performAll .first () [root, .walk true]
    ended.Alike (stalling.toGraph.performAll .first () [root, .walk false]) ∧
    ended.walk.pending.map (·.node.index) = [2, 3, 4, 3] :=
  ⟨stalling.walks_alike.2 .first _ _ rfl, by cbv⟩

/-- The graph `stalling` with an answer about node 2, and other ones about the unmarked nodes 3
and 4. -/
def unstalled : FixedGraph String where
  name n := "node " ++ toString n.index
  edges n := match n.index with
    | 2 => .ok [⟨.small 5, "f"⟩]
    | 3 => .ok [⟨.small 0, "g"⟩]
    | 4 => .error "no answer"
    | _ => stalling.edges n
  conditional n := match n.index with
    | 3 => .ok [⟨.small 6, .small 2, "h"⟩]
    | _ => .ok []

/-- Nodes 0, 1 and 5 have conditional edges of all kinds: the condition of one is its source, that
of another is marked before its source, two equal ones wait for 4, and one waits for ever. Node 7
does not answer. -/
def waking : FixedGraph String where
  name := NodeId.label
  edges n := match n.index with
    | 0 => .ok [⟨.small 1, "call"⟩, ⟨.small 2, "call"⟩]
    | 7 => .error "no answer"
    | _ => .ok []
  conditional n := match n.index with
    | 0 => .ok [⟨.small 3, .small 4, "late"⟩, ⟨.small 5, .small 0, "self"⟩,
        ⟨.small 3, .small 4, "late"⟩]
    | 1 => .ok [⟨.small 6, .small 0, "early"⟩]
    | 5 => .ok [⟨.small 8, .small 9, "never"⟩]
    | _ => .ok []

end FixedGraph

end AheadOfTime
