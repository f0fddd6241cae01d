import AheadOfTime.Marking.Walk

/-! What marking a node does, as one equation (`mark_eq`). Marking goes along some edges, in an
order, and each edge asks for its target, is counted and is recorded; the conditional edges that it
does not go along wait. -/

namespace AheadOfTime

/-- The mark that an edge asks for. -/
def RecordedEdge.candidate (e : RecordedEdge) : Candidate := ⟨e.target, e.source, e.reason⟩

def Edge.recorded (source : NodeId) (e : Edge) : RecordedEdge :=
  ⟨some source, e.target, none, e.reason⟩

def DeferredEdge.recorded (d : DeferredEdge) : RecordedEdge :=
  ⟨some d.source, d.target, some d.condition, d.reason⟩

/-- A conditional edge of a node as it is kept while it waits. -/
def ConditionalEdge.deferred (source : NodeId) (e : ConditionalEdge) : DeferredEdge :=
  ⟨e.condition, source, e.target, e.reason⟩

/-- Counts an edge that a walk goes along. -/
def Counters.along (c : Counters) (e : RecordedEdge) : Counters :=
  match e.condition with
  | none => { c with edges := c.edges + 1 }
  | some _ => { c with activations := c.activations + 1 }

theorem foldl_along (es : List RecordedEdge) (c : Counters) :
    es.foldl Counters.along c =
      { c with
        edges := c.edges + es.countP (·.condition.isNone)
        activations := c.activations + es.countP (·.condition.isSome) } := by
  induction es generalizing c with
  | nil => rfl
  | cons e es ih =>
    rw [List.foldl_cons, ih, Counters.along]
    cases h : e.condition <;> simp [h, Nat.add_assoc, Nat.add_comm 1]

namespace Walk

/-- Goes along an edge. -/
def traverse (w : Walk) (e : RecordedEdge) : Walk :=
  { w with counters := w.counters.along e, record := w.record.noteEdge e }.enqueue e.candidate

theorem fire_eq (w : Walk) (d : DeferredEdge) : w.fire d = w.traverse d.recorded := rfl

theorem enqueue_eq (w : Walk) (p : Candidate) :
    w.enqueue p = { w with pending := w.pending ++ [p].filter (·.node ∉ w.marked) } := by
  unfold enqueue
  split <;> simp_all

theorem foldl_traverse (es : List RecordedEdge) (w : Walk) :
    es.foldl traverse w =
      { w with
        pending := w.pending ++ (es.map RecordedEdge.candidate).filter (·.node ∉ w.marked)
        counters := es.foldl Counters.along w.counters
        record := es.foldl Record.noteEdge w.record } := by
  induction es generalizing w with
  | nil => simp
  | cons e es ih =>
    rw [List.foldl_cons, ih, traverse, enqueue_eq]
    simp [List.filter_cons]
    split <;> simp

/-- The conditional edges of a node that fire in the same step, and those that wait. -/
def fired (marked : List NodeId) (n : NodeId) (es : List ConditionalEdge) : List DeferredEdge :=
  (es.map (·.deferred n)).filter (·.condition ∈ marked)

def kept (marked : List NodeId) (n : NodeId) (es : List ConditionalEdge) : List DeferredEdge :=
  (es.map (·.deferred n)).filter (·.condition ∉ marked)

theorem foldl_visitConditional (n : NodeId) (es : List ConditionalEdge) (w : Walk) :
    es.foldl (visitConditional n) w =
      ((fired w.marked n es).map DeferredEdge.recorded).foldl traverse
        { w with deferred := w.deferred ++ kept w.marked n es } := by
  induction es generalizing w with
  | nil => simp [fired, kept]
  | cons e es ih =>
    rw [List.foldl_cons, ih, foldl_traverse, foldl_traverse, visitConditional]
    by_cases h : e.condition ∈ w.marked
    · simp [h, fired, kept, ConditionalEdge.deferred, fire_eq, traverse, enqueue_eq,
        List.filter_cons]
      split <;> simp
    · simp [h, fired, kept, ConditionalEdge.deferred, defer]

/-- The edges that marking a node goes along: those that waited for it, its own, and those of its
conditional ones whose condition is marked by now. -/
def traversed (w : Walk) (p : Candidate) (deps : Dependencies) : List RecordedEdge :=
  (w.deferred.filter (·.condition = p.node)).map DeferredEdge.recorded ++
    deps.edges.map (·.recorded p.node) ++
    (fired (w.marked ++ [p.node]) p.node deps.conditional).map DeferredEdge.recorded

/-- The conditional edges that wait once a node is marked. -/
def waiting (w : Walk) (p : Candidate) (deps : Dependencies) : List DeferredEdge :=
  w.deferred.filter (·.condition ≠ p.node) ++
    kept (w.marked ++ [p.node]) p.node deps.conditional

theorem foldl_along_traversed (w : Walk) (p : Candidate) (deps : Dependencies) :
    (w.traversed p deps).foldl Counters.along
        { w.counters with marked := w.counters.marked + 1 } =
      { w.counters with
        marked := w.counters.marked + 1
        edges := w.counters.edges + deps.edges.length
        activations := w.counters.activations + (w.deferred.countP (·.condition = p.node) +
          (fired (w.marked ++ [p.node]) p.node deps.conditional).length) } := by
  rw [foldl_along]
  simp only [traversed, List.countP_append, List.countP_map, Function.comp_def, Edge.recorded,
    DeferredEdge.recorded]
  simp [List.countP_eq_length_filter (p := fun d : DeferredEdge => d.condition = p.node)]

theorem mark_eq (w : Walk) (p : Candidate) (deps : Dependencies) :
    w.mark p deps =
      { marked := w.marked ++ [p.node]
        pending := w.pending ++ ((w.traversed p deps).map RecordedEdge.candidate).filter
          (·.node ∉ w.marked ++ [p.node])
        deferred := w.waiting p deps
        counters := { w.counters with
          marked := w.counters.marked + 1
          edges := w.counters.edges + deps.edges.length
          activations := w.counters.activations + (w.deferred.countP (·.condition = p.node) +
            (fired (w.marked ++ [p.node]) p.node deps.conditional).length) }
        record := (w.traversed p deps).foldl Record.noteEdge
          (w.record.noteMark p.node ⟨p.source, p.reason⟩) } := by
  have hrelease : (w.noteMarked p).release p.node =
      ((w.deferred.filter (·.condition = p.node)).map DeferredEdge.recorded).foldl traverse
        { w.noteMarked p with deferred := w.deferred.filter (·.condition ≠ p.node) } := by
    rw [List.foldl_map]; rfl
  have hvisit (v : Walk) : deps.edges.foldl (visit p.node) v =
      (deps.edges.map (·.recorded p.node)).foldl traverse v := by
    rw [List.foldl_map]; rfl
  rw [mark, foldl_visitConditional, hvisit, hrelease, ← foldl_along_traversed]
  simp only [foldl_traverse, noteMarked, traversed, waiting, List.map_append, List.filter_append,
    List.foldl_append, List.append_assoc]

end Walk

end AheadOfTime
