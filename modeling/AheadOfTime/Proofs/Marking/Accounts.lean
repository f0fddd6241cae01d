import AheadOfTime.Proofs.Marking.Closure
import AheadOfTime.Proofs.Marking.Waves

/-! What became of the edges of marked nodes. A walk goes along edges one after the other (`Along`).
At any time it has gone along all edges of the marked nodes and along those of their conditional
edges whose condition is marked, and all their other conditional edges wait, each as often as it was
answered (`Accounted`). -/

namespace AheadOfTime

namespace RecordedEdge

def isRoot (e : RecordedEdge) : Bool := e.source.isNone

/-- A node led here on no condition. -/
def isPlain (e : RecordedEdge) : Bool := e.source.isSome && e.condition.isNone

def isConditional (e : RecordedEdge) : Bool := e.condition.isSome

end RecordedEdge

theorem DeferredEdge.recorded_injective : Function.Injective DeferredEdge.recorded := by
  intro d d' h
  cases d
  cases d'
  simp only [recorded, RecordedEdge.mk.injEq, Option.some.injEq] at h
  obtain ⟨rfl, rfl, rfl, rfl⟩ := h
  rfl

/-- The edge that a command adds by itself. -/
def Command.rootEdge? : Command → Option RecordedEdge
  | .root n reason => some ⟨none, n, none, reason⟩
  | .walk _ => none

namespace Walk

variable {A : NodeId → Dependencies → Prop} {level : TrackingLevel} {es : List RecordedEdge}
  {w v : Walk} {p : Candidate} {deps : Dependencies}

/-- A fresh walk came here, by roots and by moves, along these edges in this order. -/
inductive Along (A : NodeId → Dependencies → Prop) (level : TrackingLevel) :
    List RecordedEdge → Walk → Prop where
  | start : Along A level [] (.start level)
  | root {passed v} (n reason) (h : Along A level passed v) :
      Along A level (passed ++ [⟨none, n, none, reason⟩]) (v.addRoot n reason)
  | skip {passed v p rest} (h : Along A level passed v) (hv : v.pending = p :: rest)
      (hp : p.node ∈ v.marked) : Along A level passed { v with pending := rest }.skip
  | mark {passed v p rest deps} (h : Along A level passed v) (hv : v.pending = p :: rest)
      (hp : p.node ∉ v.marked) (ha : A p.node deps) :
      Along A level (passed ++ v.traversed p deps) ({ v with pending := rest }.mark p deps)
  | wave {passed v} (h : Along A level passed v) : Along A level passed v.countWave

/-- A move goes along edges that have a source. -/
theorem Along.move (h : Along A level es w) (hm : Move A w v) :
    ∃ es', Along A level (es ++ es') v ∧ ∀ e ∈ es', e.isRoot = false := by
  cases hm with
  | skip hw hp => exact ⟨[], by simpa using h.skip hw hp, by simp⟩
  | @mark p rest deps hw hp ha =>
    refine ⟨w.traversed p deps, h.mark hw hp ha, ?_⟩
    intro e he
    rcases mem_traversed.mp he with ⟨d, -, -, rfl⟩ | ⟨d, -, rfl⟩ | ⟨d, -, -, rfl⟩ <;> rfl
  | wave => exact ⟨[], by simpa using h.wave, by simp⟩

theorem Along.moves (h : Along A level es w) (hm : Moves A w v) :
    ∃ es', Along A level (es ++ es') v ∧ ∀ e ∈ es', e.isRoot = false := by
  induction hm with
  | refl => exact ⟨[], by simpa using h, by simp⟩
  | tail _ hm ih =>
    obtain ⟨es₁, h₁, hroots₁⟩ := ih
    obtain ⟨es₂, h₂, hroots₂⟩ := h₁.move hm
    rw [List.append_assoc] at h₂
    refine ⟨es₁ ++ es₂, h₂, ?_⟩
    intro e he
    exact (List.mem_append.mp he).elim (hroots₁ e) (hroots₂ e)

theorem Seen.addRoot {m : NodeId} (h : w.Seen m) (n : NodeId) (reason : String) :
    (w.addRoot n reason).Seen m := by
  rw [Walk.addRoot, enqueue_eq]
  rcases h with h | ⟨q, hq, e⟩
  · exact .inl h
  · exact .inr ⟨q, List.mem_append_left _ hq, e⟩

theorem seen_addRoot (w : Walk) (n : NodeId) (reason : String) : (w.addRoot n reason).Seen n := by
  by_cases hn : n ∈ w.marked
  · exact .inl (by simpa [Walk.addRoot] using hn)
  · exact .inr ⟨⟨n, none, reason⟩, by simp [Walk.addRoot, enqueue, hn], rfl⟩

/-- Whoever goes along an edge asks for its target. -/
theorem Along.seen (h : Along A level es w) : ∀ e ∈ es, w.Seen e.target := by
  induction h with
  | start => simp
  | root n reason _ ih =>
    intro e he
    rcases List.mem_append.mp he with he | he
    · exact (ih e he).addRoot n reason
    · rw [List.mem_singleton.mp he]
      exact seen_addRoot _ n reason
  | skip _ hv hp ih =>
    intro e he
    have hm : Move A _ _ := .skip hv hp
    exact (ih e he).move hm
  | mark _ hv hp ha ih =>
    intro e he
    rcases List.mem_append.mp he with he | he
    · exact (ih e he).move (Move.mark hv hp ha)
    · exact seen_of_traversed he
  | wave _ ih => exact ih

/-- Marking goes along each edge of the node once. -/
theorem filter_isPlain_traversed (w : Walk) (p : Candidate) (deps : Dependencies) :
    (w.traversed p deps).filter RecordedEdge.isPlain = deps.edges.map (·.recorded p.node) := by
  simp [traversed, List.filter_map, Function.comp_def, RecordedEdge.isPlain, Edge.recorded,
    DeferredEdge.recorded]

theorem filter_isConditional_traversed (w : Walk) (p : Candidate) (deps : Dependencies) :
    (w.traversed p deps).filter RecordedEdge.isConditional =
      (w.deferred.filter (·.condition = p.node) ++
        fired (w.marked ++ [p.node]) p.node deps.conditional).map DeferredEdge.recorded := by
  simp [traversed, List.filter_map, Function.comp_def, RecordedEdge.isConditional, Edge.recorded,
    DeferredEdge.recorded]

/-- Of the edges that wait and those that come with a node, marking it fires some and has the
others wait. -/
theorem fired_append_waiting (w : Walk) (p : Candidate) (deps : Dependencies) :
    (w.deferred.filter (·.condition = p.node) ++
        fired (w.marked ++ [p.node]) p.node deps.conditional ++ w.waiting p deps).Perm
      (w.deferred ++ deps.conditional.map (·.deferred p.node)) := by
  have hold : (w.deferred.filter (·.condition = p.node) ++
      w.deferred.filter (·.condition ≠ p.node)).Perm w.deferred := by
    simpa using List.filter_append_perm (fun d : DeferredEdge => d.condition = p.node) w.deferred
  have hnew : (fired (w.marked ++ [p.node]) p.node deps.conditional ++
      kept (w.marked ++ [p.node]) p.node deps.conditional).Perm
      (deps.conditional.map (·.deferred p.node)) := by
    simpa [fired, kept] using List.filter_append_perm
      (fun d : DeferredEdge => d.condition ∈ w.marked ++ [p.node])
      (deps.conditional.map (·.deferred p.node))
  refine List.Perm.trans ?_ (hold.append hnew)
  rw [waiting]
  simp only [List.append_assoc]
  refine List.Perm.append_left _ ?_
  simp only [← List.append_assoc]
  exact List.Perm.append_right _ List.perm_append_comm

end Walk

namespace FixedGraph

variable {ε : Type} (g : FixedGraph ε)

/-- The edges of a node, none if the graph does not answer about it. -/
def edgesOf (n : NodeId) : List RecordedEdge :=
  match g.query n with
  | .ok deps => deps.edges.map (·.recorded n)
  | .error _ => []

def conditionalOf (n : NodeId) : List DeferredEdge :=
  match g.query n with
  | .ok deps => deps.conditional.map (·.deferred n)
  | .error _ => []

theorem mem_edgesOf {n : NodeId} {e : RecordedEdge} :
    e ∈ g.edgesOf n ↔ ∃ deps, g.query n = .ok deps ∧ ∃ d ∈ deps.edges, d.recorded n = e := by
  unfold edgesOf
  split <;> simp_all

theorem mem_conditionalOf {n : NodeId} {d : DeferredEdge} :
    d ∈ g.conditionalOf n ↔
      ∃ deps, g.query n = .ok deps ∧ ∃ e ∈ deps.conditional, e.deferred n = d := by
  unfold conditionalOf
  split <;> simp_all

variable {g} {level : TrackingLevel} {es : List RecordedEdge} {w : Walk} {p : Candidate}
  {deps : Dependencies}

theorem edgesOf_eq {n : NodeId} (ha : g.Answer n deps) :
    g.edgesOf n = deps.edges.map (·.recorded n) := by
  rw [Answer] at ha
  simp [edgesOf, ha]

theorem conditionalOf_eq {n : NodeId} (ha : g.Answer n deps) :
    g.conditionalOf n = deps.conditional.map (·.deferred n) := by
  rw [Answer] at ha
  simp [conditionalOf, ha]

/-- The edges that a walk went along and those that wait are the edges of its marked nodes, each as
often as it was answered, and what waits is what misses its condition. -/
structure Accounted (g : FixedGraph ε) (es : List RecordedEdge) (w : Walk) : Prop where
  answered : ∀ n ∈ w.marked, ∃ deps, g.Answer n deps
  plain : (es.filter RecordedEdge.isPlain).Perm (w.marked.flatMap g.edgesOf)
  conditional : (es.filter RecordedEdge.isConditional ++
    w.deferred.map DeferredEdge.recorded).Perm
      ((w.marked.flatMap g.conditionalOf).map DeferredEdge.recorded)
  met : ∀ e ∈ es, ∀ c, e.condition = some c → c ∈ w.marked
  unmet : ∀ d ∈ w.deferred, d.condition ∉ w.marked
  marked : w.counters.marked = w.marked.length
  edges : w.counters.edges = es.countP RecordedEdge.isPlain
  activations : w.counters.activations = es.countP RecordedEdge.isConditional

theorem accounted_start (level : TrackingLevel) : g.Accounted [] (.start level) :=
  ⟨by simp [Walk.start], by simp [Walk.start], by simp [Walk.start], by simp, by simp [Walk.start],
    rfl, rfl, rfl⟩

theorem Accounted.addRoot (h : g.Accounted es w) (n : NodeId) (reason : String) :
    g.Accounted (es ++ [⟨none, n, none, reason⟩]) (w.addRoot n reason) := by
  rw [Walk.addRoot, Walk.enqueue_eq]
  refine ⟨h.answered, ?_, ?_, ?_, h.unmet, h.marked, ?_, ?_⟩
  · simpa [RecordedEdge.isPlain] using h.plain
  · simpa [RecordedEdge.isConditional] using h.conditional
  · intro e he c hc
    rcases List.mem_append.mp he with he | he
    · exact h.met e he c hc
    · rw [List.mem_singleton.mp he] at hc
      cases hc
  · simpa [RecordedEdge.isPlain] using h.edges
  · simpa [RecordedEdge.isConditional] using h.activations

theorem Accounted.mark (h : g.Accounted es w) (ha : g.Answer p.node deps) :
    g.Accounted (es ++ w.traversed p deps) (w.mark p deps) := by
  rw [Walk.mark_eq]
  refine ⟨?_, ?_, ?_, ?_, ?_, ?_, ?_, ?_⟩
  · intro n hn
    rcases List.mem_append.mp hn with hn | hn
    · exact h.answered n hn
    · rw [List.mem_singleton.mp hn]
      exact ⟨deps, ha⟩
  · rw [List.filter_append, Walk.filter_isPlain_traversed, List.flatMap_append,
      List.flatMap_singleton, edgesOf_eq ha]
    exact h.plain.append_right _
  · have hold := h.conditional
    have hnew := (w.fired_append_waiting p deps).map DeferredEdge.recorded
    rw [List.filter_append, Walk.filter_isConditional_traversed, List.flatMap_append,
      List.flatMap_singleton, conditionalOf_eq ha]
    simp only [List.map_append, List.append_assoc] at hold hnew ⊢
    refine (hnew.append_left _).trans ?_
    simp only [← List.append_assoc] at hold ⊢
    exact hold.append_right _
  · intro e he c hc
    rcases List.mem_append.mp he with he | he
    · exact List.mem_append_left _ (h.met e he c hc)
    · rcases Walk.mem_traversed.mp he with ⟨d, -, hd, rfl⟩ | ⟨d, -, rfl⟩ | ⟨d, -, hd, rfl⟩
      · cases hc
        simp [hd]
      · cases hc
      · cases hc
        exact hd
  · intro d hd
    rcases Walk.mem_waiting.mp hd with ⟨hd, hne⟩ | ⟨e, -, he, rfl⟩
    · simpa [hne] using h.unmet d hd
    · exact he
  · simp [h.marked]
  · simp [h.edges, List.countP_eq_length_filter, Walk.filter_isPlain_traversed]
  · simp [h.activations, List.countP_eq_length_filter, Walk.filter_isConditional_traversed]

theorem Accounted.same {v : Walk} (h : g.Accounted es w) (hmarked : v.marked = w.marked)
    (hdeferred : v.deferred = w.deferred) (hmarks : v.counters.marked = w.counters.marked)
    (hedges : v.counters.edges = w.counters.edges)
    (hactivations : v.counters.activations = w.counters.activations) : g.Accounted es v := by
  obtain ⟨hanswered, hplain, hconditional, hmet, hunmet, hcount, hcountEdges, hcountFired⟩ := h
  constructor <;> simpa only [hmarked, hdeferred, hmarks, hedges, hactivations]

theorem Accounted.of_along (h : Walk.Along g.Answer level es w) : g.Accounted es w := by
  induction h with
  | start => exact accounted_start _
  | root n reason _ ih => exact ih.addRoot n reason
  | skip _ hw hp ih => exact ih.same rfl rfl rfl rfl rfl
  | @mark es w p rest deps _ hw hp ha ih =>
    have hrest : g.Accounted es { w with pending := rest } := ih.same rfl rfl rfl rfl rfl
    exact hrest.mark ha
  | wave _ ih => exact ih.same rfl rfl rfl rfl rfl

/-- The conditional edges gone along are those of marked nodes whose condition is marked. -/
theorem Accounted.perm_met (h : g.Accounted es w) :
    (es.filter RecordedEdge.isConditional).Perm
      (((w.marked.flatMap g.conditionalOf).filter (·.condition ∈ w.marked)).map
        DeferredEdge.recorded) := by
  have hsplit := h.conditional.filter fun e => e.condition.any (· ∈ w.marked)
  have hmet : (es.filter RecordedEdge.isConditional).filter
      (fun e => e.condition.any (· ∈ w.marked)) = es.filter RecordedEdge.isConditional := by
    apply List.filter_eq_self.mpr
    intro e he
    obtain ⟨he, hc⟩ := List.mem_filter.mp he
    obtain ⟨c, hc⟩ := Option.isSome_iff_exists.mp hc
    simp [hc, h.met e he c hc]
  have hunmet : (w.deferred.map DeferredEdge.recorded).filter
      (fun e => e.condition.any (· ∈ w.marked)) = [] := by
    apply List.filter_eq_nil_iff.mpr
    intro e he
    obtain ⟨d, hd, rfl⟩ := List.mem_map.mp he
    simp [DeferredEdge.recorded, h.unmet d hd]
  rw [List.filter_append, hmet, hunmet, List.append_nil, List.filter_map] at hsplit
  simpa [Function.comp_def, DeferredEdge.recorded] using hsplit

theorem Accounted.mem_plain_iff (h : g.Accounted es w) {e : RecordedEdge} (he : e.isPlain) :
    e ∈ es ↔ ∃ n ∈ w.marked, e ∈ g.edgesOf n := by
  rw [← List.mem_flatMap, ← h.plain.mem_iff, List.mem_filter, and_iff_left he]

theorem Accounted.mem_conditional_iff (h : g.Accounted es w) {e : RecordedEdge}
    (he : e.isConditional) :
    e ∈ es ↔ ∃ n ∈ w.marked, ∃ d ∈ g.conditionalOf n, d.condition ∈ w.marked ∧ d.recorded = e := by
  have hmet := h.perm_met.mem_iff (a := e)
  rw [List.mem_filter, and_iff_left he] at hmet
  rw [hmet]
  constructor
  · intro he
    obtain ⟨d, hd, rfl⟩ := List.mem_map.mp he
    obtain ⟨hd, hc⟩ := List.mem_filter.mp hd
    obtain ⟨n, hn, hd⟩ := List.mem_flatMap.mp hd
    exact ⟨n, hn, d, hd, of_decide_eq_true hc, rfl⟩
  · rintro ⟨n, hn, d, hd, hc, rfl⟩
    apply List.mem_map_of_mem
    exact List.mem_filter.mpr ⟨List.mem_flatMap.mpr ⟨n, hn, hd⟩, decide_eq_true hc⟩

/-- What waits are the other conditional edges of marked nodes. -/
theorem Accounted.perm_unmet (h : g.Accounted es w) :
    w.deferred.Perm ((w.marked.flatMap g.conditionalOf).filter (·.condition ∉ w.marked)) := by
  have hsplit := (h.perm_met.append_right _).symm.trans h.conditional
  have hall := (List.filter_append_perm (fun d : DeferredEdge => d.condition ∈ w.marked)
    (w.marked.flatMap g.conditionalOf)).symm.map DeferredEdge.recorded
  rw [List.map_append] at hall
  have hrest := (List.perm_append_left_iff _).mp (hsplit.trans hall)
  simpa using (List.map_perm_map_iff DeferredEdge.recorded_injective).mp hrest

variable (g) in
/-- Commands go along the roots that they add and, for the rest, along edges of nodes. -/
theorem exists_along_performAll (level : TrackingLevel) (cs : List Command) :
    ∃ passed, Walk.Along g.Answer level passed (g.toGraph.performAll level () cs).walk ∧
      passed.filter RecordedEdge.isRoot = cs.filterMap Command.rootEdge? := by
  induction cs using List.reverseRecOn with
  | nil => exact ⟨[], .start, rfl⟩
  | append_singleton cs c ih =>
    obtain ⟨passed, h, hroots⟩ := ih
    rw [Graph.performAll_concat]
    cases c with
    | root n reason =>
      refine ⟨_, h.root n reason, ?_⟩
      simp [hroots, RecordedEdge.isRoot, Command.rootEdge?]
    | walk inWaves =>
      obtain ⟨es, hes, hsourced⟩ := h.moves (g.walk_moves inWaves _)
      have hnone : es.filter RecordedEdge.isRoot = [] := by simpa using hsourced
      exact ⟨_, hes, by simp [hroots, hnone, Command.rootEdge?]⟩

variable (g) in
/-- Whatever commands came before, and whether walks failed or not, each conditional edge of a
marked node was gone along once, which asked for its target, if its condition is marked, and waits
once if it is not; the counters tell how many there are of each. -/
theorem conditional_edges_accounted (level : TrackingLevel) (cs : List Command) :
    let w := (g.toGraph.performAll level () cs).walk
    let answered := w.marked.flatMap g.conditionalOf
    (∀ n ∈ w.marked, ∃ deps, g.query n = .ok deps) ∧
    (∃ passed, Walk.Along g.Answer level passed w ∧
      passed.filter RecordedEdge.isRoot = cs.filterMap Command.rootEdge? ∧
      (passed.filter RecordedEdge.isConditional).Perm
        ((answered.filter (·.condition ∈ w.marked)).map DeferredEdge.recorded)) ∧
    (∀ d ∈ answered, d.condition ∈ w.marked → w.Seen d.target) ∧
    w.deferred.Perm (answered.filter (·.condition ∉ w.marked)) ∧
    (∀ d ∈ w.deferred, d.condition ∉ w.marked) ∧
    w.counters.activations = (answered.filter (·.condition ∈ w.marked)).length ∧
    w.deferred.length = (answered.filter (·.condition ∉ w.marked)).length ∧
    w.counters.edges = (w.marked.flatMap g.edgesOf).length ∧
    w.counters.marked = w.marked.length := by
  intro w answered
  obtain ⟨passed, halong, hroots⟩ := g.exists_along_performAll level cs
  have h : g.Accounted passed w := .of_along halong
  have hseen : ∀ d ∈ answered, d.condition ∈ w.marked → w.Seen d.target := by
    intro d hd hc
    obtain ⟨n, hn, hd⟩ := List.mem_flatMap.mp hd
    exact halong.seen d.recorded ((h.mem_conditional_iff rfl).mpr ⟨n, hn, d, hd, hc, rfl⟩)
  have hactivations : w.counters.activations =
      (answered.filter (·.condition ∈ w.marked)).length := by
    rw [h.activations, List.countP_eq_length_filter, h.perm_met.length_eq, List.length_map]
  have hedges : w.counters.edges = (w.marked.flatMap g.edgesOf).length := by
    rw [h.edges, List.countP_eq_length_filter, h.plain.length_eq]
  exact ⟨h.answered, ⟨passed, halong, hroots, h.perm_met⟩, hseen, h.perm_unmet, h.unmet,
    hactivations, h.perm_unmet.length_eq, hedges, h.marked⟩

/-- The second walk fails right after the two edges that waited have asked for node 3. -/
theorem conditional_edges_accounted_waking :
    let cs : List Command := [.root (.small 0) "main", .walk true, .root (.small 4) "late",
      .root (.small 7) "bad", .walk false]
    let w := (waking.toGraph.performAll .none () cs).walk
    w.marked.map (·.index) = [0, 1, 2, 5, 6, 4] ∧ w.Seen (.small 3) ∧
      w.counters.activations = 4 ∧ w.deferred.length = 1 :=
  have h := waking.conditional_edges_accounted .none [.root (.small 0) "main", .walk true,
    .root (.small 4) "late", .root (.small 7) "bad", .walk false]
  have hseen := h.2.2.1 ⟨.small 4, .small 0, .small 3, "late"⟩
  have hactivations := h.2.2.2.2.2.1
  have hdeferred := h.2.2.2.2.2.2.1
  ⟨by cbv, hseen (of_decide_eq_true (by cbv)) (of_decide_eq_true (by cbv)),
    hactivations.trans (by cbv), hdeferred.trans (by cbv)⟩

end FixedGraph

end AheadOfTime
