import AheadOfTime.Marking.Record

/-! The state of a walk, and what marking one node does to it: the node joins the marked ones,
conditional edges that waited for it fire, its own edges are visited, and those conditional edges
whose condition is not marked yet wait. -/

namespace AheadOfTime

structure Counters where
  marked : Nat
  /-- Edges visited, those into marked nodes included. -/
  edges : Nat
  /-- Queued marks that came too late. -/
  revisits : Nat
  /-- Conditional edges that fired. -/
  activations : Nat
  waves : Nat
deriving DecidableEq

/-- A mark that is to be made, unless the node is marked before its turn. -/
structure Candidate where
  node : NodeId
  source : Option NodeId
  reason : String
deriving DecidableEq

/-- A conditional edge of a marked source that waits for its condition. -/
structure DeferredEdge where
  condition : NodeId
  source : NodeId
  target : NodeId
  reason : String
deriving DecidableEq

structure Walk where
  /-- The marked nodes in the order of marking. -/
  marked : List NodeId
  pending : List Candidate
  deferred : List DeferredEdge
  counters : Counters
  record : Record

namespace Walk

def start (level : TrackingLevel) : Walk where
  marked := []
  pending := []
  deferred := []
  counters := ⟨0, 0, 0, 0, 0⟩
  record := .start level

def enqueue (w : Walk) (p : Candidate) : Walk :=
  if p.node ∈ w.marked then w else { w with pending := w.pending ++ [p] }

/-- Asks for a node whatever else asks for it. -/
def addRoot (w : Walk) (n : NodeId) (reason : String) : Walk :=
  { w with record := w.record.noteEdge ⟨none, n, none, reason⟩ }.enqueue ⟨n, none, reason⟩

/-- Fires a conditional edge. -/
def fire (w : Walk) (d : DeferredEdge) : Walk :=
  { w with
    counters := { w.counters with activations := w.counters.activations + 1 }
    record := w.record.noteEdge ⟨some d.source, d.target, some d.condition, d.reason⟩
  }.enqueue ⟨d.target, some d.source, d.reason⟩

def defer (w : Walk) (d : DeferredEdge) : Walk := { w with deferred := w.deferred ++ [d] }

/-- Fires what waits for a node, oldest first. -/
def release (w : Walk) (n : NodeId) : Walk :=
  (w.deferred.filter (·.condition = n)).foldl fire
    { w with deferred := w.deferred.filter (·.condition ≠ n) }

def visit (source : NodeId) (w : Walk) (e : Edge) : Walk :=
  { w with
    counters := { w.counters with edges := w.counters.edges + 1 }
    record := w.record.noteEdge ⟨some source, e.target, none, e.reason⟩
  }.enqueue ⟨e.target, some source, e.reason⟩

def visitConditional (source : NodeId) (w : Walk) (e : ConditionalEdge) : Walk :=
  let d : DeferredEdge := ⟨e.condition, source, e.target, e.reason⟩
  if e.condition ∈ w.marked then w.fire d else w.defer d

/-- Puts a node among the marked ones and does nothing else. -/
def noteMarked (w : Walk) (p : Candidate) : Walk :=
  { w with
    marked := w.marked ++ [p.node]
    counters := { w.counters with marked := w.counters.marked + 1 }
    record := w.record.noteMark p.node ⟨p.source, p.reason⟩ }

/-- Marks a node whose dependencies are known. -/
def mark (w : Walk) (p : Candidate) (deps : Dependencies) : Walk :=
  deps.conditional.foldl (visitConditional p.node)
    (deps.edges.foldl (visit p.node) ((w.noteMarked p).release p.node))

/-- Passes over a mark that came too late. -/
def skip (w : Walk) : Walk :=
  { w with counters := { w.counters with revisits := w.counters.revisits + 1 } }

@[simp] theorem enqueue_marked (w : Walk) (p : Candidate) : (w.enqueue p).marked = w.marked := by
  unfold enqueue; split <;> rfl

@[simp] theorem fire_marked (w : Walk) (d : DeferredEdge) :
    (w.fire d).marked = w.marked := by simp [fire]

@[simp] theorem visit_marked (n : NodeId) (w : Walk) (e : Edge) :
    (w.visit n e).marked = w.marked := by simp [visit]

@[simp] theorem visitConditional_marked (n : NodeId) (w : Walk) (e : ConditionalEdge) :
    (w.visitConditional n e).marked = w.marked := by
  simp only [visitConditional]; split <;> simp [defer]

theorem foldl_marked {α : Type} {f : Walk → α → Walk} (hf : ∀ w a, (f w a).marked = w.marked)
    (l : List α) (w : Walk) : (l.foldl f w).marked = w.marked := by
  induction l generalizing w with
  | nil => rfl
  | cons a l ih => rw [List.foldl_cons, ih, hf]

@[simp] theorem release_marked (w : Walk) (n : NodeId) : (w.release n).marked = w.marked :=
  foldl_marked fire_marked ..

@[simp] theorem mark_marked (w : Walk) (p : Candidate) (deps : Dependencies) :
    (w.mark p deps).marked = w.marked ++ [p.node] := by
  simp [mark, foldl_marked, noteMarked]

end Walk

/-- Why a walk stopped: the node whose dependencies could not be told, and how it was reached,
nearest hop first. -/
structure WalkError (ε : Type) where
  node : String
  path : List String
  cause : ε

def WalkError.message {ε : Type} (e : WalkError ε) : String :=
  "cannot compute dependencies of `" ++ e.node ++ "` (reached via " ++
    " <- ".intercalate e.path ++ ")"

/-- Where a walk ended: with an error, or with nothing pending. -/
structure Outcome (σ ε : Type) where
  walk : Walk
  state : σ
  error : Option (WalkError ε)

namespace Walk

/-- An origin as a hop of a path. -/
def hop (name : NodeId → String) (r : Origin) : String :=
  match r.source with
  | some source => name source ++ " (" ++ r.reason ++ ")"
  | none => "root (" ++ r.reason ++ ")"

/-- The way back from a mark that could not be made, nearest hop first. -/
def trailTo (w : Walk) (p : Candidate) : List Origin :=
  ⟨p.source, p.reason⟩ :: ((p.source.bind w.record.trail).getD [])

def failure {ε : Type} (w : Walk) (name : NodeId → String) (p : Candidate) (cause : ε) :
    WalkError ε where
  node := name p.node
  path := (w.trailTo p).map (hop name)
  cause := cause

def report (w : Walk) (name : NodeId → String) : Option Report := w.record.report name w.marked

end Walk

end AheadOfTime
