import AheadOfTime.Graph.NodeId

/-! Dependency graphs as they are asked for: one node at a time, by questions that may fail and
that may change a state of type `σ`, such as the nodes that exist so far. -/

namespace AheadOfTime

/-- An edge that is there as soon as its source is marked. -/
structure Edge where
  target : NodeId
  reason : String
deriving DecidableEq

/-- An edge that is there once its source and its condition are marked. -/
structure ConditionalEdge where
  target : NodeId
  condition : NodeId
  reason : String
deriving DecidableEq

/-- Everything that leads out of a node. -/
structure Dependencies where
  edges : List Edge
  conditional : List ConditionalEdge
deriving DecidableEq

structure Graph (σ ε : Type) where
  name : σ → NodeId → String
  edges : NodeId → σ → Except ε (List Edge) × σ
  conditional : NodeId → σ → Except ε (List ConditionalEdge) × σ

namespace Graph

variable {σ ε : Type}

/-- Asks for the edges of a node and then, unless that failed, for its conditional ones. -/
def query (g : Graph σ ε) (n : NodeId) (s : σ) : Except ε Dependencies × σ :=
  match g.edges n s with
  | (.error e, s) => (.error e, s)
  | (.ok edges, s) =>
    match g.conditional n s with
    | (.error e, s) => (.error e, s)
    | (.ok conditional, s) => (.ok ⟨edges, conditional⟩, s)

/-- The same graph, which also notes down the nodes whose edges were asked for. -/
def traced (g : Graph σ ε) : Graph (List NodeId × σ) ε where
  name s := g.name s.2
  edges n s := ((g.edges n s.2).1, s.1 ++ [n], (g.edges n s.2).2)
  conditional n s := ((g.conditional n s.2).1, s.1, (g.conditional n s.2).2)

end Graph

/-- A graph that always answers alike. -/
structure FixedGraph (ε : Type) where
  name : NodeId → String
  edges : NodeId → Except ε (List Edge)
  conditional : NodeId → Except ε (List ConditionalEdge)

namespace FixedGraph

variable {ε : Type}

def query (g : FixedGraph ε) (n : NodeId) : Except ε Dependencies := do
  let edges ← g.edges n
  let conditional ← g.conditional n
  return ⟨edges, conditional⟩

def toGraph (g : FixedGraph ε) : Graph Unit ε where
  name _ := g.name
  edges n s := (g.edges n, s)
  conditional n s := (g.conditional n, s)

theorem query_toGraph (g : FixedGraph ε) (n : NodeId) (s : Unit) :
    g.toGraph.query n s = (g.query n, s) := by
  simp only [Graph.query, query, toGraph]
  cases g.edges n <;> cases g.conditional n <;> simp [bind, Except.bind, pure, Except.pure]

end FixedGraph

end AheadOfTime
