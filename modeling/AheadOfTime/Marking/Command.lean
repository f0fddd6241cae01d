import AheadOfTime.Marking.Sequential
import AheadOfTime.Marking.Waves

/-! What is asked of a walk over time: roots, and walks of either kind. A walk that fails leaves
its state to the next command. -/

namespace AheadOfTime

inductive Command where
  | root (n : NodeId) (reason : String)
  | walk (inWaves : Bool)
deriving DecidableEq

namespace Graph

variable {σ ε : Type}

/-- Walks in the one way or the other. -/
def walk (g : Graph σ ε) (inWaves : Bool) (w : Walk) (s : σ) : Outcome σ ε :=
  if inWaves then g.drainWaves w s else g.drain w s

theorem pending_of_walk (g : Graph σ ε) {inWaves : Bool} {w : Walk} {s : σ}
    (h : (g.walk inWaves w s).error = none) : (g.walk inWaves w s).walk.pending = [] := by
  cases inWaves with
  | false => exact g.pending_of_drain h
  | true => exact g.pending_of_drainWaves h

/-- Carries out a command where the one before it ended. -/
def perform (g : Graph σ ε) (o : Outcome σ ε) : Command → Outcome σ ε
  | .root n reason => ⟨o.walk.addRoot n reason, o.state, none⟩
  | .walk inWaves => g.walk inWaves o.walk o.state

/-- Carries out commands from a fresh walk; the error is that of the last of them. -/
def performAll (g : Graph σ ε) (level : TrackingLevel) (s : σ) (cs : List Command) :
    Outcome σ ε :=
  cs.foldl g.perform ⟨.start level, s, none⟩

theorem performAll_concat (g : Graph σ ε) (level : TrackingLevel) (s : σ) (cs : List Command)
    (c : Command) :
    g.performAll level s (cs ++ [c]) = g.perform (g.performAll level s cs) c := by
  rw [performAll, List.foldl_append]; rfl

end Graph

end AheadOfTime
