import AheadOfTime.Proofs.Marking.Accounts

/-! The log of edges. It holds each edge that a walk went along once, in the order of the first
visits (`mem_edges_foldl`, `nodup_edges_foldl`), and its report distributes the edges among the
marked nodes. Main statement: once a walk has ended without an error, the edges in the log are those
that the roots and the marked nodes account for. -/

namespace AheadOfTime

namespace EdgeLog

variable {l : EdgeLog} {e : RecordedEdge} {es : List RecordedEdge} {n : NodeId}

theorem edges_note (l : EdgeLog) (e : RecordedEdge) :
    (l.note e).edges = if e ∈ l.edges then l.edges else l.edges ++ [e] := by
  unfold note
  split <;> rfl

theorem mem_edges_foldl : e ∈ (es.foldl note l).edges ↔ e ∈ l.edges ∨ e ∈ es := by
  induction es generalizing l with
  | nil => simp
  | cons d es ih =>
    rw [List.foldl_cons, ih, edges_note, List.mem_cons]
    split
    · rename_i hd
      constructor
      · rintro (he | he)
        · exact .inl he
        · exact .inr (.inr he)
      · rintro (he | rfl | he)
        · exact .inl he
        · exact .inl hd
        · exact .inr he
    · simp [or_assoc]

theorem nodup_edges_foldl (h : l.edges.Nodup) : (es.foldl note l).edges.Nodup := by
  induction es generalizing l with
  | nil => exact h
  | cons d es ih =>
    rw [List.foldl_cons]
    apply ih
    rw [edges_note]
    split
    · exact h
    · rename_i hd
      exact h.append (List.nodup_singleton d) (by simpa using hd)

/-- The reason that an edge gives for its target. -/
def reason (name : NodeId → String) (e : RecordedEdge) : Report.Reason where
  source := e.source.map name
  condition := e.condition.map name
  reason := e.reason

theorem reportItems_cons (name : NodeId → String) (es : List RecordedEdge) (n : NodeId)
    (ns : List NodeId) :
    reportItems name es (n :: ns) =
      ⟨name n, (es.filter (·.target = n)).map (reason name)⟩ ::
        reportItems name (es.filter (·.target ≠ n)) ns := rfl

/-- Distinct nodes each have all edges into them. -/
theorem reportItems_eq_map {ns : List NodeId} (h : ns.Nodup) (name : NodeId → String)
    (es : List RecordedEdge) :
    reportItems name es ns =
      ns.map fun n => ⟨name n, (es.filter (·.target = n)).map (reason name)⟩ := by
  induction ns generalizing es with
  | nil => rfl
  | cons n ns ih =>
    obtain ⟨hn, hns⟩ := List.nodup_cons.mp h
    rw [reportItems_cons, ih hns, List.map_cons]
    congr 1
    apply List.map_congr_left
    intro m hm
    have hne : m ≠ n := fun e => hn (e ▸ hm)
    -- the edges into `m` were not taken away with those into `n`
    have hkept : (es.filter (·.target ≠ n)).filter (·.target = m) = es.filter (·.target = m) := by
      rw [List.filter_filter]
      apply List.filter_congr
      intro e _
      by_cases he : e.target = m <;> simp [he, hne]
    rw [hkept]

/-- A report gives as many reasons as there are edges into its nodes. -/
theorem length_reasons_reportItems (name : NodeId → String) (ns : List NodeId)
    (es : List RecordedEdge) :
    ((reportItems name es ns).flatMap (·.reasons)).length = es.countP (·.target ∈ ns) := by
  induction ns generalizing es with
  | nil => simp [reportItems]
  | cons n ns ih =>
    have hfirst : (es.filter (·.target = n)).countP (·.target ∈ n :: ns) =
        (es.filter (·.target = n)).length := by
      apply List.countP_eq_length.mpr
      intro e he
      simpa using Or.inl (of_decide_eq_true (List.mem_filter.mp he).2)
    have hrest : (es.filter (·.target ≠ n)).countP (·.target ∈ n :: ns) =
        (es.filter (·.target ≠ n)).countP (·.target ∈ ns) := by
      apply List.countP_congr
      intro e he
      simp [of_decide_eq_true (List.mem_filter.mp he).2]
    rw [reportItems_cons, List.flatMap_cons, List.length_append, ih, List.length_map,
      List.countP_eq_countP_filter_add es _ (·.target = n), hfirst, ← hrest]
    simp

end EdgeLog

namespace Record

theorem noteMark_all (log : EdgeLog) (n : NodeId) (o : Origin) :
    (all log).noteMark n o = .all log := rfl

theorem foldl_noteEdge_first (es : List RecordedEdge) (marks : FirstMarks) :
    es.foldl noteEdge (.first marks) = .first marks := by
  induction es with
  | nil => rfl
  | cons e es ih => exact ih

theorem foldl_noteEdge_all (es : List RecordedEdge) (l : EdgeLog) :
    es.foldl noteEdge (.all l) = .all (es.foldl EdgeLog.note l) := by
  induction es generalizing l with
  | nil => rfl
  | cons e es ih => exact ih (l.note e)

end Record

/-- A walk that records all edges has in its log those that it went along. -/
theorem Walk.Along.record_eq {A : NodeId → Dependencies → Prop} {es : List RecordedEdge} {w : Walk}
    (h : Along A .all es w) : w.record = .all (es.foldl EdgeLog.note .empty) := by
  induction h with
  | start => rfl
  | root n reason _ ih =>
    rw [Walk.addRoot, enqueue_eq, List.foldl_append]
    simp only [ih]
    rfl
  | skip _ _ _ ih => exact ih
  | @mark passed v p rest deps _ _ _ _ ih =>
    rw [mark_eq, List.foldl_append, ← Record.foldl_noteEdge_all, ← ih]
    simp only [ih]
    rfl
  | wave _ ih => exact ih

namespace FixedGraph

variable {ε : Type} (g : FixedGraph ε)

/-- The edges that roots and the answers about marked nodes account for. -/
inductive Due (cs : List Command) (marked : List NodeId) : RecordedEdge → Prop where
  | root {n reason} (hc : .root n reason ∈ cs) : Due cs marked ⟨none, n, none, reason⟩
  | edge {n deps e} (hn : n ∈ marked) (ha : g.query n = .ok deps) (he : e ∈ deps.edges) :
      Due cs marked ⟨some n, e.target, none, e.reason⟩
  | conditional {n deps e} (hn : n ∈ marked) (ha : g.query n = .ok deps)
      (he : e ∈ deps.conditional) (hc : e.condition ∈ marked) :
      Due cs marked ⟨some n, e.target, some e.condition, e.reason⟩

variable {g}

theorem mem_along_iff {level : TrackingLevel} {cs : List Command} {es : List RecordedEdge}
    {w : Walk} (h : Walk.Along g.Answer level es w)
    (hroots : es.filter RecordedEdge.isRoot = cs.filterMap Command.rootEdge?) (e : RecordedEdge) :
    e ∈ es ↔ g.Due cs w.marked e := by
  have haccount : g.Accounted es w := .of_along h
  obtain ⟨source, target, condition, reason⟩ := e
  cases source with
  | none =>
    have hroot : ⟨none, target, condition, reason⟩ ∈ es ↔
        ⟨none, target, condition, reason⟩ ∈ cs.filterMap Command.rootEdge? := by
      rw [← hroots, List.mem_filter, and_iff_left (rfl : RecordedEdge.isRoot _ = true)]
    rw [hroot, List.mem_filterMap]
    constructor
    · rintro ⟨c, hc, he⟩
      cases c <;> cases he
      exact .root hc
    · intro hdue
      cases hdue with
      | root hc => exact ⟨_, hc, rfl⟩
  | some s =>
    cases condition with
    | none =>
      rw [haccount.mem_plain_iff rfl]
      constructor
      · rintro ⟨n, hn, he⟩
        obtain ⟨deps, ha, d, hd, he⟩ := (g.mem_edgesOf).mp he
        cases he
        exact .edge hn ha hd
      · intro hdue
        cases hdue with
        | edge hn ha hd => exact ⟨s, hn, (g.mem_edgesOf).mpr ⟨_, ha, _, hd, rfl⟩⟩
    | some c =>
      rw [haccount.mem_conditional_iff rfl]
      constructor
      · rintro ⟨n, hn, d, hd, hc, he⟩
        obtain ⟨deps, ha, d', hd', rfl⟩ := (g.mem_conditionalOf).mp hd
        cases he
        exact .conditional hn ha hd' hc
      · intro hdue
        cases hdue with
        | conditional hn ha hd hc =>
          exact ⟨s, hn, _, (g.mem_conditionalOf).mpr ⟨_, ha, _, hd, rfl⟩, hc, rfl⟩

variable (g) in
/-- Whatever roots and walks came before, a walk that ends without an error leaves in the log the
edges of the roots and of the marked nodes and no others, each once. All of them lead to marked
nodes, so the report shows each under its target, in the order of the log. -/
theorem edge_log_exact (before : List Command) (inWaves : Bool)
    (hok : (g.toGraph.performAll .all () (before ++ [.walk inWaves])).error = none) :
    let w := (g.toGraph.performAll .all () (before ++ [.walk inWaves])).walk
    ∃ log, w.record = .all log ∧ log.edges.Nodup ∧
      (∀ e, e ∈ log.edges ↔ g.Due before w.marked e) ∧
      (∀ e ∈ log.edges, e.target ∈ w.marked) ∧
      ∀ name, ∃ r, w.report name = some r ∧ r.kind = .fullGraph ∧
        r.items = w.marked.map (fun n =>
          { name := name n
            reasons := (log.into n).map fun e =>
              { source := e.source.map name
                condition := e.condition.map name
                reason := e.reason } }) ∧
        r.reasonCount = log.edges.length := by
  have hpending :
      (g.toGraph.performAll .all () (before ++ [.walk inWaves])).walk.pending = [] := by
    rw [Graph.performAll_concat] at hok ⊢
    exact g.toGraph.pending_of_walk hok
  intro w
  obtain ⟨passed, halong, hroots⟩ := g.exists_along_performAll .all (before ++ [.walk inWaves])
  have hmem (e : RecordedEdge) : e ∈ (passed.foldl EdgeLog.note .empty).edges ↔ e ∈ passed := by
    simp [EdgeLog.mem_edges_foldl, EdgeLog.empty]
  have htargets : ∀ e ∈ (passed.foldl EdgeLog.note .empty).edges, e.target ∈ w.marked := by
    intro e he
    rcases halong.seen e ((hmem e).mp he) with h | ⟨p, hp, -⟩
    · exact h
    · rw [hpending] at hp
      cases hp
  refine ⟨_, halong.record_eq, EdgeLog.nodup_edges_foldl List.nodup_nil, ?_, htargets, ?_⟩
  · intro e
    rw [hmem]
    apply mem_along_iff halong
    rw [hroots, List.filterMap_append]
    simp [Command.rootEdge?]
  · intro name
    refine ⟨_, by rw [Walk.report, halong.record_eq]; rfl, rfl, ?_, ?_⟩
    · have hnodup := (g.complete_performAll .all (before ++ [.walk inWaves])).nodup
      exact EdgeLog.reportItems_eq_map hnodup name _
    · rw [Report.reasonCount, EdgeLog.report, EdgeLog.length_reasons_reportItems]
      apply List.countP_eq_length.mpr
      intro e he
      exact decide_eq_true (htargets e he)

/-- Two equal edges wait for node 4, and fire for a root that comes after the first walk. -/
theorem edge_log_exact_waking :
    let before : List Command := [.root (.small 0) "main", .walk true, .root (.small 4) "late",
      .root (.small 0) "again"]
    let o := waking.toGraph.performAll .all () (before ++ [.walk false])
    o.error = none ∧ ∃ log, o.walk.record = .all log ∧
      ⟨some (.small 0), .small 3, some (.small 4), "late"⟩ ∈ log.edges ∧
      .small 3 ∈ o.walk.marked ∧
      ∃ r, o.walk.report waking.name = some r ∧ r.reasonCount = log.edges.length := by
  have hok : (waking.toGraph.performAll .all () ([.root (.small 0) "main", .walk true,
      .root (.small 4) "late", .root (.small 0) "again"] ++ [.walk false])).error = none := by
    cbv
  have hmarked : ∀ n ∈ [NodeId.small 0, NodeId.small 4],
      n ∈ (waking.toGraph.performAll .all () ([.root (.small 0) "main", .walk true,
        .root (.small 4) "late", .root (.small 0) "again"] ++ [.walk false])).walk.marked := by
    intro n hn
    rcases List.mem_pair.mp hn with rfl | rfl <;> exact of_decide_eq_true (by cbv)
  obtain ⟨log, hlog, -, hdue, htargets, hreport⟩ := waking.edge_log_exact _ false hok
  have hlate : ⟨some (.small 0), .small 3, some (.small 4), "late"⟩ ∈ log.edges := by
    apply (hdue _).mpr
    exact .conditional (e := ⟨.small 3, .small 4, "late"⟩) (hmarked _ (by simp)) rfl
      List.mem_cons_self (hmarked _ (by simp))
  obtain ⟨r, hr, -, -, hcount⟩ := hreport waking.name
  exact ⟨hok, log, hlog, hlate, htargets _ hlate, r, hr, hcount⟩

end FixedGraph

end AheadOfTime
