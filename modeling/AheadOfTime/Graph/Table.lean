import AheadOfTime.Graph.Basic

/-! Graphs written down as tables. A node without an entry has no edges. -/

namespace AheadOfTime

structure TableEntry where
  name : Option String
  edges : List Edge
  conditional : List ConditionalEdge
  /-- The text with which asking for the edges fails, if it does. -/
  failure : Option String
  conditionalFailure : Option String

structure GraphTable where
  entries : List (NodeId × TableEntry)

namespace GraphTable

def empty : GraphTable := ⟨[]⟩

/-- Puts an entry in the place of an earlier one for the node. -/
def set (t : GraphTable) (n : NodeId) (entry : TableEntry) : GraphTable :=
  ⟨(n, entry) :: t.entries.filter (·.1 ≠ n)⟩

def name (t : GraphTable) (n : NodeId) : String :=
  ((t.entries.lookup n).bind TableEntry.name).getD ("n" ++ toString n.index)

/-- An answer, or the failure that takes its place. -/
def answer {α : Type} (failure : Option String) (list : List α) : Except String (List α) :=
  match failure with
  | some text => .error text
  | none => .ok list

def graph (t : GraphTable) : FixedGraph String where
  name := t.name
  edges n := match t.entries.lookup n with
    | some entry => answer entry.failure entry.edges
    | none => .ok []
  conditional n := match t.entries.lookup n with
    | some entry => answer entry.conditionalFailure entry.conditional
    | none => .ok []

end GraphTable

end AheadOfTime
