import AheadOfTime.Proofs.Marking.Moves
import Mathlib

/-! What is marked is what the roots need. Two invariants of moves carry this: everything seen lies
in every closed set (`Within`), and nothing that an answer asked for is lost (`Complete`). -/

namespace AheadOfTime

/-- A set into which answers about its members lead. -/
structure ClosedUnder (A : NodeId → Dependencies → Prop) (S : Set NodeId) : Prop where
  edges : ∀ {n deps}, n ∈ S → A n deps → ∀ e ∈ deps.edges, e.target ∈ S
  conditional : ∀ {n deps}, n ∈ S → A n deps → ∀ e ∈ deps.conditional, e.condition ∈ S →
    e.target ∈ S

/-- All edges lead into a set. -/
structure Dependencies.LeadInto (deps : Dependencies) (S : Set NodeId) : Prop where
  edges : ∀ e ∈ deps.edges, e.target ∈ S
  conditional : ∀ e ∈ deps.conditional, e.target ∈ S

theorem Dependencies.LeadInto.mono {deps : Dependencies} {S T : Set NodeId} (h : deps.LeadInto S)
    (hST : S ⊆ T) : deps.LeadInto T :=
  ⟨fun e he => hST (h.edges e he), fun e he => hST (h.conditional e he)⟩

namespace Walk

variable {A : NodeId → Dependencies → Prop} {S roots : Set NodeId} {w v : Walk}

theorem mem_traversed {p : Candidate} {deps : Dependencies} {e : RecordedEdge} :
    e ∈ w.traversed p deps ↔
      (∃ d ∈ w.deferred, d.condition = p.node ∧ d.recorded = e) ∨
      (∃ d ∈ deps.edges, d.recorded p.node = e) ∨
      ∃ d ∈ deps.conditional, d.condition ∈ w.marked ++ [p.node] ∧
        (d.deferred p.node).recorded = e := by
  simp [traversed, fired, ConditionalEdge.deferred, and_assoc]

theorem mem_waiting {p : Candidate} {deps : Dependencies} {d : DeferredEdge} :
    d ∈ w.waiting p deps ↔
      (d ∈ w.deferred ∧ d.condition ≠ p.node) ∨
      ∃ e ∈ deps.conditional, e.condition ∉ w.marked ++ [p.node] ∧ e.deferred p.node = d := by
  rw [waiting, List.mem_append]
  refine or_congr (by simp) ⟨fun h => ?_, ?_⟩
  · obtain ⟨hd, hc⟩ := List.mem_filter.mp h
    obtain ⟨e, he, rfl⟩ := List.mem_map.mp hd
    exact ⟨e, he, of_decide_eq_true hc, rfl⟩
  · rintro ⟨e, he, hc, rfl⟩
    exact List.mem_filter.mpr ⟨List.mem_map_of_mem he, decide_eq_true hc⟩

/-- All that a walk has seen or waits to see lies in a set. -/
structure Within (S : Set NodeId) (w : Walk) : Prop where
  marked : ∀ n ∈ w.marked, n ∈ S
  pending : ∀ p ∈ w.pending, p.node ∈ S
  deferred : ∀ d ∈ w.deferred, d.condition ∈ S → d.target ∈ S

theorem Within.mark (hS : ClosedUnder A S) {p : Candidate} {deps : Dependencies}
    (ha : A p.node deps) (hp : p.node ∈ S) (h : w.Within S) : (w.mark p deps).Within S := by
  have hmarked : ∀ n ∈ w.marked ++ [p.node], n ∈ S := by
    intro n hn
    rcases List.mem_append.mp hn with hn | hn
    · exact h.marked n hn
    · rwa [List.mem_singleton.mp hn]
  have htraversed : ∀ e ∈ w.traversed p deps, e.target ∈ S := by
    intro e he
    rcases mem_traversed.mp he with ⟨d, hd, hc, rfl⟩ | ⟨d, hd, rfl⟩ | ⟨d, hd, hc, rfl⟩
    · exact h.deferred d hd (hc ▸ hp)
    · exact hS.edges hp ha d hd
    · exact hS.conditional hp ha d hd (hmarked _ hc)
  rw [mark_eq]
  refine ⟨hmarked, fun q hq => ?_, fun d hd hc => ?_⟩
  · rcases List.mem_append.mp hq with hq | hq
    · exact h.pending q hq
    · obtain ⟨e, he, rfl⟩ := List.mem_map.mp (List.mem_filter.mp hq).1
      exact htraversed e he
  · rcases mem_waiting.mp hd with ⟨hd, -⟩ | ⟨e, he, -, rfl⟩
    · exact h.deferred d hd hc
    · exact hS.conditional hp ha e he hc

theorem Within.move (hS : ClosedUnder A S) (hm : Move A w v) (h : w.Within S) : v.Within S := by
  cases hm with
  | skip hw hp =>
    exact ⟨h.marked, fun q hq => h.pending q (hw ▸ List.mem_cons_of_mem _ hq), h.deferred⟩
  | @mark p rest deps hw hp ha =>
    have hrest : ({ w with pending := rest } : Walk).Within S :=
      ⟨h.marked, fun q hq => h.pending q (hw ▸ List.mem_cons_of_mem _ hq), h.deferred⟩
    exact hrest.mark hS ha (h.pending p (hw ▸ List.mem_cons_self))
  | wave => exact ⟨h.marked, h.pending, h.deferred⟩

theorem Within.moves (hS : ClosedUnder A S) (hm : Moves A w v) (h : w.Within S) :
    v.Within S := by
  induction hm with
  | refl => exact h
  | tail _ hm ih => exact ih.move hS hm

/-- A node is marked, or a mark of it is still to be made. -/
def Seen (w : Walk) (n : NodeId) : Prop := n ∈ w.marked ∨ ∃ p ∈ w.pending, p.node = n

theorem seen_of_traversed {p : Candidate} {deps : Dependencies} {e : RecordedEdge}
    (he : e ∈ w.traversed p deps) : (w.mark p deps).Seen e.target := by
  rw [mark_eq]
  by_cases h : e.target ∈ w.marked ++ [p.node]
  · exact .inl h
  · refine .inr ⟨e.candidate, List.mem_append_right _ (List.mem_filter.mpr ⟨?_, ?_⟩), rfl⟩
    · exact List.mem_map_of_mem he
    · simpa [RecordedEdge.candidate] using h

theorem Seen.move {n : NodeId} (hm : Move A w v) (h : w.Seen n) : v.Seen n := by
  cases hm with
  | @skip p rest hw hp =>
    rcases h with h | ⟨q, hq, rfl⟩
    · exact .inl h
    · rcases List.mem_cons.mp (hw ▸ hq) with rfl | hq
      · exact .inl hp
      · exact .inr ⟨q, hq, rfl⟩
  | @mark p rest deps hw hp ha =>
    rw [mark_eq]
    rcases h with h | ⟨q, hq, rfl⟩
    · exact .inl (List.mem_append_left _ h)
    · rcases List.mem_cons.mp (hw ▸ hq) with rfl | hq
      · exact .inl (List.mem_append_right _ List.mem_cons_self)
      · exact .inr ⟨q, List.mem_append_left _ hq, rfl⟩
  | wave => exact h

/-- Nothing that an answer about a node asks for is lost: its edges lead to seen nodes, and each of
its conditional edges has fired if it could and else waits. -/
structure Settled (w : Walk) (n : NodeId) (deps : Dependencies) : Prop where
  edges : ∀ e ∈ deps.edges, w.Seen e.target
  fired : ∀ e ∈ deps.conditional, e.condition ∈ w.marked → w.Seen e.target
  waiting : ∀ e ∈ deps.conditional, e.condition ∉ w.marked → e.deferred n ∈ w.deferred

theorem settled_mark (w : Walk) (p : Candidate) (deps : Dependencies) :
    (w.mark p deps).Settled p.node deps where
  edges e he := seen_of_traversed (mem_traversed.mpr (.inr (.inl ⟨e, he, rfl⟩)))
  fired e he hc := by
    rw [mark_marked] at hc
    exact seen_of_traversed (mem_traversed.mpr (.inr (.inr ⟨e, he, hc, rfl⟩)))
  waiting e he hc := by
    rw [mark_eq] at hc ⊢
    exact mem_waiting.mpr (.inr ⟨e, he, hc, rfl⟩)

/-- A condition can be marked long after its source: the edge waited since then, and fires now. -/
theorem Settled.move {n : NodeId} {own : Dependencies} (hm : Move A w v) (h : w.Settled n own) :
    v.Settled n own := by
  have hseen (m : NodeId) : w.Seen m → v.Seen m := .move hm
  cases hm with
  | skip hw hp =>
    exact ⟨fun e he => hseen _ (h.edges e he), fun e he hc => hseen _ (h.fired e he hc), h.waiting⟩
  | @mark p rest deps hw hp ha =>
    refine ⟨fun e he => hseen _ (h.edges e he), fun e he hc => ?_, fun e he hc => ?_⟩
    · by_cases hold : e.condition ∈ w.marked
      · exact hseen _ (h.fired e he hold)
      · have hnew : e.condition = p.node := by
          rw [mark_marked] at hc
          rcases List.mem_append.mp hc with hc | hc
          · exact absurd hc hold
          · exact List.mem_singleton.mp hc
        have hfires : (e.deferred n).recorded ∈ w.traversed p deps :=
          mem_traversed.mpr (.inl ⟨_, h.waiting e he hold, hnew, rfl⟩)
        exact seen_of_traversed (w := { w with pending := rest }) hfires
    · rw [mark_eq] at hc ⊢
      have hc' : e.condition ∉ w.marked ∧ e.condition ≠ p.node := by simpa using hc
      exact mem_waiting.mpr (.inl ⟨h.waiting e he hc'.1, hc'.2⟩)
  | wave => exact ⟨h.edges, h.fired, h.waiting⟩

/-- Roots are seen, and every marked node was marked with an answer of which nothing is lost. -/
structure Complete (A : NodeId → Dependencies → Prop) (roots : Set NodeId) (w : Walk) :
    Prop where
  nodup : w.marked.Nodup
  roots : ∀ n ∈ roots, w.Seen n
  settled : ∀ n ∈ w.marked, ∃ deps, A n deps ∧ w.Settled n deps

theorem Complete.move (hm : Move A w v) (h : w.Complete A roots) : v.Complete A roots := by
  have hold : ∀ n ∈ w.marked, ∃ deps, A n deps ∧ v.Settled n deps := by
    intro n hn
    obtain ⟨deps, ha, hs⟩ := h.settled n hn
    exact ⟨deps, ha, hs.move hm⟩
  refine ⟨?_, fun n hn => (h.roots n hn).move hm, ?_⟩
  · cases hm with
    | skip hw hp => exact h.nodup
    | mark hw hp ha =>
      rw [mark_marked]
      refine List.nodup_append.mpr ⟨h.nodup, by simp, ?_⟩
      rintro n hn m hm rfl
      exact hp (List.mem_singleton.mp hm ▸ hn)
    | wave => exact h.nodup
  · cases hm with
    | skip hw hp => exact hold
    | @mark p rest deps hw hp ha =>
      intro n hn
      rw [mark_marked] at hn
      rcases List.mem_append.mp hn with hn | hn
      · exact hold n hn
      · rw [List.mem_singleton.mp hn]
        exact ⟨deps, ha, settled_mark _ p deps⟩
    | wave => exact hold

theorem Complete.moves (hm : Moves A w v) (h : w.Complete A roots) : v.Complete A roots := by
  induction hm with
  | refl => exact h
  | tail _ hm ih => exact ih.move hm

/-- Once nothing is pending, answers about marked nodes lead to marked nodes only. -/
theorem Complete.edges_marked (h : w.Complete A roots) (hw : w.pending = []) {n : NodeId}
    (hn : n ∈ w.marked) :
    ∃ deps, A n deps ∧ (∀ e ∈ deps.edges, e.target ∈ w.marked) ∧
      ∀ e ∈ deps.conditional, e.condition ∈ w.marked → e.target ∈ w.marked := by
  have hseen : ∀ n, w.Seen n → n ∈ w.marked := by
    rintro n (hn | ⟨p, hp, -⟩)
    · exact hn
    · simp [hw] at hp
  obtain ⟨deps, ha, hs⟩ := h.settled n hn
  exact ⟨deps, ha, fun e he => hseen _ (hs.edges e he), fun e he hc => hseen _ (hs.fired e he hc)⟩

theorem Complete.roots_marked (h : w.Complete A roots) (hw : w.pending = []) :
    ∀ n ∈ roots, n ∈ w.marked := by
  intro n hn
  rcases h.roots n hn with hn | ⟨p, hp, -⟩
  · exact hn
  · simp [hw] at hp

theorem complete_start (A : NodeId → Dependencies → Prop) (level : TrackingLevel) :
    (start level).Complete A ∅ :=
  ⟨List.nodup_nil, fun _ hn => hn.elim, fun n hn => by simp [start] at hn⟩

theorem within_start (S : Set NodeId) (level : TrackingLevel) : (start level).Within S :=
  ⟨by simp [start], by simp [start], by simp [start]⟩

theorem Complete.addRoot (h : w.Complete A roots) (n : NodeId) (reason : String) :
    (w.addRoot n reason).Complete A (insert n roots) := by
  have hseen (m : NodeId) (hm : w.Seen m) : (w.addRoot n reason).Seen m := by
    rw [Walk.addRoot, enqueue_eq]
    exact hm.imp id fun ⟨p, hp, e⟩ => ⟨p, List.mem_append_left _ hp, e⟩
  have hmarked : (w.addRoot n reason).marked = w.marked := by simp [Walk.addRoot]
  have hdeferred : (w.addRoot n reason).deferred = w.deferred := by
    simp [Walk.addRoot, enqueue_eq]
  refine ⟨hmarked ▸ h.nodup, ?_, ?_⟩
  · rintro m (rfl | hm)
    · rw [Seen, hmarked]
      by_cases hm : m ∈ w.marked
      · exact .inl hm
      · exact .inr ⟨⟨m, none, reason⟩, by simp [Walk.addRoot, enqueue, hm], rfl⟩
    · exact hseen m (h.roots m hm)
  · intro m hm
    rw [hmarked] at hm
    obtain ⟨deps, ha, hs⟩ := h.settled m hm
    exact ⟨deps, ha, fun e he => hseen _ (hs.edges e he),
      fun e he hc => hseen _ (hs.fired e he (hmarked ▸ hc)),
      fun e he hc => hdeferred ▸ hs.waiting e he (hmarked ▸ hc)⟩

theorem Within.addRoot (h : w.Within S) {n : NodeId} (hn : n ∈ S) (reason : String) :
    (w.addRoot n reason).Within S := by
  rw [Walk.addRoot, enqueue_eq]
  refine ⟨h.marked, fun p hp => ?_, h.deferred⟩
  rcases List.mem_append.mp hp with hp | hp
  · exact h.pending p hp
  · rw [List.mem_singleton.mp (List.mem_filter.mp hp).1]
    exact hn

end Walk

/-- The nodes that some command asks for. -/
def rooted (cs : List Command) : Set NodeId := {n | ∃ reason, .root n reason ∈ cs}

theorem rooted_mono {cs ds : List Command} (h : cs <+: ds) : rooted cs ⊆ rooted ds :=
  fun _ ⟨reason, hn⟩ => ⟨reason, h.subset hn⟩

theorem rooted_concat_root (cs : List Command) (n : NodeId) (reason : String) :
    rooted (cs ++ [.root n reason]) = insert n (rooted cs) := by
  ext m
  simp [rooted, exists_or, or_comm]

theorem rooted_concat_walk (cs : List Command) (inWaves : Bool) :
    rooted (cs ++ [.walk inWaves]) = rooted cs := by
  ext m
  simp [rooted]

namespace FixedGraph

variable {ε : Type} (g : FixedGraph ε)

/-- A set that holds some roots and, with any nodes, all that these lead to. -/
structure Closed (roots S : Set NodeId) : Prop where
  roots : roots ⊆ S
  edges : ∀ {n es}, n ∈ S → g.edges n = .ok es → ∀ e ∈ es, e.target ∈ S
  conditional : ∀ {n es}, n ∈ S → g.conditional n = .ok es → ∀ e ∈ es, e.condition ∈ S →
    e.target ∈ S

variable {g} in
theorem Closed.mono {roots roots' S : Set NodeId} (h : g.Closed roots S) (hsub : roots' ⊆ roots) :
    g.Closed roots' S :=
  ⟨hsub.trans h.roots, h.edges, h.conditional⟩

/-- What some roots need: that which every closed set holds. -/
def needed (roots : Set NodeId) : Set NodeId := {n | ∀ S, g.Closed roots S → n ∈ S}

theorem isLeast_needed (roots : Set NodeId) :
    IsLeast {S | g.Closed roots S} (g.needed roots) := by
  refine ⟨⟨fun n hn S hS => hS.roots hn, fun hn h e he S hS => ?_, fun hn h e he hc S hS => ?_⟩,
    fun S hS n hn => hn S hS⟩
  · exact hS.edges (hn S hS) h e he
  · exact hS.conditional (hn S hS) h e he (hc S hS)

/-- The graph answers so about a node. -/
def Answer (n : NodeId) (deps : Dependencies) : Prop := g.query n = .ok deps

theorem answer_iff {n : NodeId} {deps : Dependencies} :
    g.Answer n deps ↔ g.edges n = .ok deps.edges ∧ g.conditional n = .ok deps.conditional := by
  obtain ⟨es, ds⟩ := deps
  unfold Answer query
  cases g.edges n <;> cases g.conditional n <;> simp [bind, Except.bind, pure, Except.pure]

variable {g} in
theorem Closed.closedUnder {roots S : Set NodeId} (h : g.Closed roots S) :
    ClosedUnder g.Answer S where
  edges hn ha := h.edges hn (g.answer_iff.mp ha).1
  conditional hn ha := h.conditional hn (g.answer_iff.mp ha).2

theorem walk_moves (inWaves : Bool) (w : Walk) :
    Walk.Moves g.Answer w (g.toGraph.walk inWaves w ()).walk :=
  (g.answers.walk_moves inWaves trivial).mono fun _ _ ha => ha.symm

theorem complete_performAll (level : TrackingLevel) (cs : List Command) :
    (g.toGraph.performAll level () cs).walk.Complete g.Answer (rooted cs) := by
  induction cs using List.reverseRecOn with
  | nil =>
    have h : rooted [] = ∅ := by simp [rooted]
    rw [h]
    exact Walk.complete_start g.Answer level
  | append_singleton cs c ih =>
    rw [Graph.performAll_concat]
    cases c with
    | root n reason =>
      rw [rooted_concat_root]
      exact ih.addRoot n reason
    | walk inWaves =>
      rw [rooted_concat_walk]
      exact ih.moves (g.walk_moves inWaves _)

theorem within_performAll (level : TrackingLevel) {cs : List Command} {S : Set NodeId}
    (hS : g.Closed (rooted cs) S) : (g.toGraph.performAll level () cs).walk.Within S := by
  induction cs using List.reverseRecOn with
  | nil => exact Walk.within_start S level
  | append_singleton cs c ih =>
    rw [Graph.performAll_concat]
    cases c with
    | root n reason =>
      rw [rooted_concat_root] at hS
      have hold : g.Closed (rooted cs) S := hS.mono (Set.subset_insert n _)
      exact (ih hold).addRoot (hS.roots (.inl rfl)) reason
    | walk inWaves =>
      rw [rooted_concat_walk] at hS
      exact (ih hS).moves hS.closedUnder (g.walk_moves inWaves _)

/-- Once a walk has ended without an error, what is marked is closed. -/
theorem closed_marked {w : Walk} {roots : Set NodeId} (h : w.Complete g.Answer roots)
    (hw : w.pending = []) : g.Closed roots {n | n ∈ w.marked} where
  roots := h.roots_marked hw
  edges hn hes e he := by
    obtain ⟨deps, ha, hedges, -⟩ := h.edges_marked hw hn
    rw [(g.answer_iff.mp ha).1] at hes
    cases hes
    exact hedges e he
  conditional hn hes e he hc := by
    obtain ⟨deps, ha, -, hconditional⟩ := h.edges_marked hw hn
    rw [(g.answer_iff.mp ha).2] at hes
    cases hes
    exact hconditional e he hc

/-- Whatever commands came before, a walk that ends without an error has marked what the roots so
far need and nothing else, each node once. At no point, within a walk or between walks, is anything
else marked. -/
theorem marked_eq_needed (level : TrackingLevel) (cs : List Command) :
    IsLeast {S | g.Closed (rooted cs) S} (g.needed (rooted cs)) ∧
    (∀ before inWaves, cs = before ++ [.walk inWaves] →
      (g.toGraph.performAll level () cs).error = none →
        {n | n ∈ (g.toGraph.performAll level () cs).walk.marked} = g.needed (rooted cs)) ∧
    (g.toGraph.performAll level () cs).walk.marked.Nodup ∧
    ∀ before v, before <+: cs →
      Walk.Moves g.Answer (g.toGraph.performAll level () before).walk v →
        {n | n ∈ v.marked} ⊆ g.needed (rooted cs) := by
  have hcomplete := g.complete_performAll level cs
  have hpassed : ∀ before v, before <+: cs →
      Walk.Moves g.Answer (g.toGraph.performAll level () before).walk v →
        {n | n ∈ v.marked} ⊆ g.needed (rooted cs) := by
    intro before v hbefore hmoves n hn S hS
    have hwithin := g.within_performAll level (hS.mono (rooted_mono hbefore))
    exact (hwithin.moves hS.closedUnder hmoves).marked n hn
  refine ⟨g.isLeast_needed _, fun before inWaves hcs herror => ?_, hcomplete.nodup, hpassed⟩
  have hpending : (g.toGraph.performAll level () cs).walk.pending = [] := by
    rw [hcs, Graph.performAll_concat] at herror ⊢
    exact g.toGraph.pending_of_walk herror
  refine Set.Subset.antisymm (hpassed cs _ (List.prefix_refl cs) .refl) fun n hn => ?_
  exact hn _ (g.closed_marked hcomplete hpending)

/-- Node 0 leads to 1 and, once 3 is marked, to 2; node 1 leads back to 0 and, being marked itself,
to 3. -/
def selfWaking : FixedGraph String where
  name := NodeId.label
  edges n := match n.index with
    | 0 => .ok [⟨⟨1, by decide⟩, "call"⟩]
    | 1 => .ok [⟨⟨0, by decide⟩, "call"⟩]
    | _ => .ok []
  conditional n := match n.index with
    | 0 => .ok [⟨⟨2, by decide⟩, ⟨3, by decide⟩, "override"⟩]
    | 1 => .ok [⟨⟨3, by decide⟩, ⟨1, by decide⟩, "override"⟩]
    | _ => .ok []

theorem marked_eq_needed_selfWaking :
    let cs : List Command := [.root ⟨0, by decide⟩ "main", .walk true]
    let ended := (selfWaking.toGraph.performAll .all () cs).walk
    ended.marked.map (·.index) = [0, 1, 3, 2] ∧
    {n | n ∈ ended.marked} = selfWaking.needed (rooted cs) ∧
    {n | n ∈ (selfWaking.toGraph.performAll .all () [.root ⟨0, by decide⟩ "main"]).walk.marked} ⊆
      selfWaking.needed (rooted cs) :=
  have h := selfWaking.marked_eq_needed .all [.root ⟨0, by decide⟩ "main", .walk true]
  ⟨by cbv, h.2.1 [.root ⟨0, by decide⟩ "main"] true rfl (by cbv),
    h.2.2.2 [.root ⟨0, by decide⟩ "main"] _ (List.prefix_append _ _) .refl⟩

end FixedGraph

end AheadOfTime
