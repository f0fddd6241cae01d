import AheadOfTime.Proofs.Marking.Closure
import AheadOfTime.Proofs.Marking.Waves

/-! Walks that go on where another one stopped. A walk from any state passes through every state to
which moves lead (`drain_moves`), and moves depend on answers about marked nodes alone
(`Moves.of_marked`). So a walk that failed can be resumed over any graph that answers alike about
what is marked, and ends like a walk over that graph from the start. -/

namespace AheadOfTime

namespace Walk

/-- A walk that has yet to begin. -/
def seeded (level : TrackingLevel) (roots : List (NodeId × String)) : Walk :=
  roots.foldl (fun w r => w.addRoot r.1 r.2) (.start level)

variable {A : NodeId → Dependencies → Prop} {w v : Walk}

theorem Move.marked_subset (h : Move A w v) : w.marked ⊆ v.marked := by
  intro n hn
  cases h with
  | skip hw hp => exact hn
  | mark hw hp ha =>
    rw [mark_marked]
    exact List.mem_append_left _ hn
  | wave => exact hn

/-- The answers that moves were made with are about nodes that are marked in the end. -/
theorem Moves.of_marked (h : Moves A w v) :
    Moves (fun n deps => A n deps ∧ n ∈ v.marked) w v := by
  induction h with
  | refl => exact .refl
  | tail _ hm ih =>
    refine (ih.mono fun n deps ha => ⟨ha.1, hm.marked_subset ha.2⟩).tail ?_
    cases hm with
    | skip hw hp => exact .skip hw hp
    | mark hw hp ha =>
      apply Move.mark hw hp
      rw [mark_marked]
      exact ⟨ha, List.mem_append_right _ List.mem_cons_self⟩
    | wave => exact .wave

end Walk

namespace FixedGraph

variable {ε : Type} {g g' : FixedGraph ε} {w v : Walk}

/-- A walk goes on alike from where one of its moves leads. -/
theorem drain_move (h : Walk.Move g.Answer w v) :
    g.toGraph.drain w.apartFromWaves () = g.toGraph.drain v.apartFromWaves () := by
  cases h with
  | skip hw hp => exact g.toGraph.drain_skip (w := w.apartFromWaves) hw hp ()
  | @mark p rest deps hw hp ha =>
    have hq : g.toGraph.query p.node () = (.ok deps, ()) := by rw [g.query_toGraph, ha]
    rw [Walk.apartFromWaves_mark, g.toGraph.drain_mark (w := w.apartFromWaves) hw hp hq]
    rfl
  | wave => rfl

theorem drain_moves (h : Walk.Moves g.Answer w v) :
    g.toGraph.drain w.apartFromWaves () = g.toGraph.drain v.apartFromWaves () := by
  induction h with
  | refl => rfl
  | tail _ hm ih => exact ih.trans (drain_move hm)

/-- Wherever a walk stopped, another graph that answers alike about what is marked by then could
have led there. -/
theorem moves_of_agree (inWaves : Bool) (w : Walk)
    (h : ∀ n ∈ (g.toGraph.walk inWaves w ()).walk.marked, g'.query n = g.query n) :
    Walk.Moves g'.Answer w (g.toGraph.walk inWaves w ()).walk := by
  apply (g.walk_moves inWaves w).of_marked.mono
  intro n deps ⟨ha, hn⟩
  rw [Answer, h n hn]
  exact ha

/-- A walk from some roots stops, by a failure or not. From there a walk of any kind, over a graph
that answers alike about what is marked by then and otherwise as it likes, ends like one from the
roots over that graph. -/
theorem resumed_alike (level : TrackingLevel) (roots : List (NodeId × String))
    (stopping resuming starting : Bool)
    (hagree : ∀ n ∈ (g.toGraph.walk stopping (.seeded level roots) ()).walk.marked,
      g'.query n = g.query n) :
    let stopped := g.toGraph.walk stopping (.seeded level roots) ()
    (g'.toGraph.walk resuming stopped.walk stopped.state).Alike
      (g'.toGraph.walk starting (.seeded level roots) ()) := by
  intro stopped
  apply Outcome.alike_iff.mpr
  rw [g'.walk_apartFromWaves, g'.walk_apartFromWaves]
  exact (drain_moves (moves_of_agree stopping _ hagree)).symm

/-- A wave stops at node 2. Resumed one by one, the walk goes past it and stops at node 4. -/
theorem resumed_alike_unstalled :
    let stopped := stalling.toGraph.walk true (.seeded .first [(.small 0, "main")]) ()
    let resumed := unstalled.toGraph.walk false stopped.walk stopped.state
    stopped.walk.marked = [.small 0, .small 1] ∧ stopped.error.isSome ∧
    (∀ n ∈ stopped.walk.marked, unstalled.query n = stalling.query n) ∧
    resumed.Alike (unstalled.toGraph.walk true (.seeded .first [(.small 0, "main")]) ()) ∧
    resumed.walk.marked.map (·.index) = [0, 1, 2, 3] ∧
    resumed.error.map (·.path) = some ["node 1 (d)", "node 0 (a)", "root (main)"] := by
  have hmarked : (stalling.toGraph.walk true (.seeded .first [(.small 0, "main")]) ()).walk.marked =
      [.small 0, .small 1] := by cbv
  have hagree : ∀ n ∈ (stalling.toGraph.walk true
      (.seeded .first [(.small 0, "main")]) ()).walk.marked,
      unstalled.query n = stalling.query n := by
    intro n hn
    rw [hmarked] at hn
    rcases List.mem_pair.mp hn with rfl | rfl <;> rfl
  exact ⟨hmarked, by cbv, hagree, resumed_alike .first [(.small 0, "main")] true false true hagree,
    by cbv, by cbv⟩

end FixedGraph

end AheadOfTime
