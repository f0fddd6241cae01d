import AheadOfTime.Graph.Basic
import AheadOfTime.Marking.Report

/-! Records of a walk: nothing, the first reason of each node, or every edge. A record listens to
the walk and never decides what is marked. -/

namespace AheadOfTime

/-- Why a node was marked: the node that asked, none for a root, and the reason it gave. -/
structure Origin where
  source : Option NodeId
  reason : String
deriving DecidableEq

/-- The chain of recorded origins from a node back to a root, nearest first. There is none if it
meets an unrecorded node, and it is cut after so many hops. -/
def follow (origin? : NodeId → Option Origin) : Nat → NodeId → Option (List Origin)
  | 0, _ => some []
  | hops + 1, n =>
    match origin? n with
    | none => none
    | some r =>
      match r.source with
      | none => some [r]
      | some source => (follow origin? hops source).map (r :: ·)

/-- The first origin of each node. -/
structure FirstMarks where
  entries : List (NodeId × Origin)

namespace FirstMarks

def empty : FirstMarks := ⟨[]⟩

def origin? (f : FirstMarks) (n : NodeId) : Option Origin := f.entries.lookup n

def size (f : FirstMarks) : Nat := f.entries.length

/-- Notes an origin unless the node has one. -/
def note (f : FirstMarks) (n : NodeId) (r : Origin) : FirstMarks :=
  match f.origin? n with
  | some _ => f
  | none => ⟨f.entries ++ [(n, r)]⟩

/-- A chain of distinct nodes has at most `size` hops, so only a cycle is cut. -/
def trail (f : FirstMarks) (n : NodeId) : Option (List Origin) :=
  follow f.origin? (f.size + 1) n

def report (f : FirstMarks) (name : NodeId → String) (marked : List NodeId) : Report where
  kind := .firstMark
  items := marked.map fun n =>
    { name := name n
      reasons := (f.origin? n).toList.map fun r =>
        { source := r.source.map name, condition := none, reason := r.reason } }

end FirstMarks

/-- An edge that a walk went along. The source of a root edge is none. -/
structure RecordedEdge where
  source : Option NodeId
  target : NodeId
  condition : Option NodeId
  reason : String
deriving DecidableEq

/-- The distinct edges in the order of their first visit, and for each target the position of the
first edge into it. -/
structure EdgeLog where
  edges : List RecordedEdge
  firstInto : List (NodeId × Nat)

namespace EdgeLog

def empty : EdgeLog := ⟨[], []⟩

def note (l : EdgeLog) (e : RecordedEdge) : EdgeLog :=
  if e ∈ l.edges then l
  else
    { edges := l.edges ++ [e]
      firstInto := match l.firstInto.lookup e.target with
        | some _ => l.firstInto
        | none => l.firstInto ++ [(e.target, l.edges.length)] }

/-- The edges into a node, in the order of their first visit. -/
def into (l : EdgeLog) (n : NodeId) : List RecordedEdge := l.edges.filter (·.target = n)

def joins (l : EdgeLog) (source : Option NodeId) (target : NodeId) : Bool :=
  l.edges.any fun e => e.source = source && e.target = target

/-- The first edge into a node, as its origin. -/
def origin? (l : EdgeLog) (n : NodeId) : Option Origin := do
  let position ← l.firstInto.lookup n
  let e ← l.edges[position]?
  return ⟨e.source, e.reason⟩

def trail (l : EdgeLog) (n : NodeId) : Option (List Origin) :=
  follow l.origin? (l.firstInto.length + 1) n

/-- Each node with the edges into it; a node that comes again has none left. -/
def reportItems (name : NodeId → String) (edges : List RecordedEdge) :
    List NodeId → List Report.Item
  | [] => []
  | n :: ns =>
    { name := name n
      reasons := (edges.filter (·.target = n)).map fun e =>
        { source := e.source.map name, condition := e.condition.map name, reason := e.reason } }
      :: reportItems name (edges.filter (·.target ≠ n)) ns

def report (l : EdgeLog) (name : NodeId → String) (marked : List NodeId) : Report where
  kind := .fullGraph
  items := reportItems name l.edges marked

end EdgeLog

inductive TrackingLevel where
  | none
  | first
  | all
deriving DecidableEq

inductive Record where
  | off
  | first (marks : FirstMarks)
  | all (log : EdgeLog)

namespace Record

def start : TrackingLevel → Record
  | .none => .off
  | .first => .first .empty
  | .all => .all .empty

def level : Record → TrackingLevel
  | .off => .none
  | .first _ => .first
  | .all _ => .all

def label : Record → String
  | .off => "none"
  | .first _ => "first-mark"
  | .all _ => "full-graph"

def tracksEdges : Record → Bool
  | .all _ => true
  | _ => false

/-- Hears that a node was marked. -/
def noteMark (r : Record) (n : NodeId) (origin : Origin) : Record :=
  match r with
  | .first marks => .first (marks.note n origin)
  | r => r

/-- Hears that the walk went along an edge. -/
def noteEdge (r : Record) (e : RecordedEdge) : Record :=
  match r with
  | .all log => .all (log.note e)
  | r => r

def trail (r : Record) (n : NodeId) : Option (List Origin) :=
  match r with
  | .off => none
  | .first marks => marks.trail n
  | .all log => log.trail n

def report (r : Record) (name : NodeId → String) (marked : List NodeId) : Option Report :=
  match r with
  | .off => none
  | .first marks => some (marks.report name marked)
  | .all log => some (log.report name marked)

end Record

end AheadOfTime
