import AheadOfTime.Proofs.Marking.Discovery

/-! How far marked nodes are from the roots. Without conditional edges a walk of either kind goes
by distance: the queue holds marks of at most two neighbouring distances, the nearer ones first
(`ByDistance`), and every path to an unmarked node leaves the marked ones through the queue
(`Breadth`), so the first mark of a node takes it a shortest way. Main statement: paths of
discovery are shortest ones, and nodes are marked in the order of their distance. -/

namespace AheadOfTime

/-- How far a node is that is marked for a root, or for another node. -/
def oneBeyond (distance : NodeId → ℕ) (source : Option NodeId) : ℕ :=
  source.elim 0 (distance · + 1)

/-- The queue holds marks of at most two neighbouring distances, the nearer ones first, and what is
marked is not farther than they are. -/
structure ByDistance (distance : NodeId → ℕ) (marked : List NodeId) (pending : List Candidate) :
    Prop where
  sorted : marked.Pairwise fun m n => distance m ≤ distance n
  behind : ∀ n ∈ marked, ∀ p ∈ pending, distance n ≤ oneBeyond distance p.source
  queue : pending.Pairwise fun p q =>
    oneBeyond distance p.source ≤ oneBeyond distance q.source ∧
      oneBeyond distance q.source ≤ oneBeyond distance p.source + 1

namespace ByDistance

variable {distance : NodeId → ℕ} {marked : List NodeId} {p : Candidate}
  {pending new : List Candidate}

theorem tail (h : ByDistance distance marked (p :: pending)) :
    ByDistance distance marked pending where
  sorted := h.sorted
  behind n hn q hq := h.behind n hn q (List.mem_cons_of_mem p hq)
  queue := (List.pairwise_cons.mp h.queue).2

theorem front (h : ByDistance distance marked (p :: pending)) :
    ∀ q ∈ pending, oneBeyond distance p.source ≤ oneBeyond distance q.source ∧
      oneBeyond distance q.source ≤ oneBeyond distance p.source + 1 :=
  (List.pairwise_cons.mp h.queue).1

/-- What a marked node asks for is one step farther than it, hence behind everything queued. -/
theorem mark (h : ByDistance distance marked (p :: pending))
    (hp : distance p.node = oneBeyond distance p.source)
    (hnew : ∀ q ∈ new, q.source = some p.node) :
    ByDistance distance (marked ++ [p.node]) (pending ++ new) := by
  have hbeyond : ∀ q ∈ new, oneBeyond distance q.source = oneBeyond distance p.source + 1 := by
    intro q hq
    rw [hnew q hq, ← hp]
    rfl
  have hmarked : ∀ n ∈ marked ++ [p.node], distance n ≤ oneBeyond distance p.source := by
    intro n hn
    rcases List.mem_append.mp hn with hn | hn
    · exact h.behind n hn p List.mem_cons_self
    · rw [List.mem_singleton.mp hn, hp]
  refine ⟨?_, fun n hn q hq => ?_, ?_⟩
  · refine List.pairwise_append.mpr ⟨h.sorted, List.pairwise_singleton .., fun m hm n hn => ?_⟩
    rw [List.mem_singleton.mp hn, hp]
    exact hmarked m (List.mem_append_left _ hm)
  · refine (hmarked n hn).trans ?_
    rcases List.mem_append.mp hq with hq | hq
    · exact (h.front q hq).1
    · rw [hbeyond q hq]
      exact Nat.le_succ _
  · refine List.pairwise_append.mpr ⟨h.tail.queue,
      List.pairwise_of_forall_mem_list fun q hq r hr => ?_, fun q hq r hr => ?_⟩
    · rw [hbeyond q hq, hbeyond r hr]
      omega
    · rw [hbeyond r hr]
      have := h.front q hq
      omega

end ByDistance

namespace FixedGraph

variable {ε : Type} (g : FixedGraph ε)

/-- Where the question for conditional edges is answered, there are none. -/
def Unconditional : Prop := ∀ n ds, g.conditional n = .ok ds → ds = []

/-- A path along so many edges leads from some root to a node. -/
inductive ReachedIn (roots : Set NodeId) : ℕ → NodeId → Prop where
  | root {n} (hn : n ∈ roots) : ReachedIn roots 0 n
  | edge {k n es e} (hn : ReachedIn roots k n) (hes : g.edges n = .ok es) (he : e ∈ es) :
      ReachedIn roots (k + 1) e.target

/-- The length of a shortest path. -/
noncomputable def distance (roots : Set NodeId) (n : NodeId) : ℕ :=
  sInf {k | g.ReachedIn roots k n}

variable {g}

theorem ReachedIn.isLeast {roots : Set NodeId} {k : ℕ} {n : NodeId} (h : g.ReachedIn roots k n) :
    IsLeast {k | g.ReachedIn roots k n} (g.distance roots n) :=
  ⟨Nat.sInf_mem ⟨k, h⟩, fun _ hk => Nat.sInf_le hk⟩

end FixedGraph

namespace Walk

/-- A node is marked, or a mark is queued that takes it no farther than so many steps. -/
def SeenBy (distance : NodeId → ℕ) (k : ℕ) (n : NodeId) (w : Walk) : Prop :=
  n ∈ w.marked ∨ ∃ p ∈ w.pending, p.node = n ∧ oneBeyond distance p.source ≤ k

variable {ε : Type} {g : FixedGraph ε} {roots : Set NodeId} {A : NodeId → Dependencies → Prop}
  {w v : Walk} {p : Candidate} {rest : List Candidate} {deps : Dependencies} {k : ℕ} {n : NodeId}

theorem SeenBy.move {distance : NodeId → ℕ} (hm : Move A w v) (h : w.SeenBy distance k n) :
    v.SeenBy distance k n := by
  cases hm with
  | @skip p rest hw hp =>
    rcases h with h | ⟨q, hq, rfl, hk⟩
    · exact .inl h
    · rcases List.mem_cons.mp (hw ▸ hq) with rfl | hq
      · exact .inl hp
      · exact .inr ⟨q, hq, rfl, hk⟩
  | @mark p rest deps hw hp ha =>
    rw [mark_eq]
    rcases h with h | ⟨q, hq, rfl, hk⟩
    · exact .inl (List.mem_append_left _ h)
    · rcases List.mem_cons.mp (hw ▸ hq) with rfl | hq
      · exact .inl (List.mem_append_right _ List.mem_cons_self)
      · exact .inr ⟨q, List.mem_append_left _ hq, rfl, hk⟩
  | wave => exact h

/-- Where nothing is conditional, a mark asks for the targets of its edges and for nothing else. -/
theorem mark_unconditional (hdeferred : w.deferred = []) (hconditional : deps.conditional = []) :
    (w.mark p deps).deferred = [] ∧ ∃ new, (w.mark p deps).pending = w.pending ++ new ∧
      ∀ q ∈ new, q.source = some p.node ∧ ∃ e ∈ deps.edges, e.target = q.node := by
  rw [mark_eq]
  refine ⟨by simp [waiting, kept, hdeferred, hconditional], _, rfl, fun q hq => ?_⟩
  obtain ⟨r, hr, rfl⟩ := List.mem_map.mp (List.mem_filter.mp hq).1
  have hedge : ∃ e ∈ deps.edges, e.recorded p.node = r := by
    simpa [mem_traversed, hdeferred, hconditional] using hr
  obtain ⟨e, he, rfl⟩ := hedge
  exact ⟨rfl, e, he, rfl⟩

/-- A walk along edges alone goes by distance, and nothing on a path is lost. -/
structure Breadth (g : FixedGraph ε) (roots : Set NodeId) (w : Walk) : Prop where
  order : ByDistance (g.distance roots) w.marked w.pending
  deferred : w.deferred = []
  reached : ∀ n ∈ w.marked, ∃ k, g.ReachedIn roots k n
  queued : ∀ p ∈ w.pending, g.ReachedIn roots (oneBeyond (g.distance roots) p.source) p.node
  started : ∀ n ∈ roots, w.SeenBy (g.distance roots) 0 n
  edges : ∀ n ∈ w.marked, ∀ es, g.edges n = .ok es →
    ∀ e ∈ es, w.SeenBy (g.distance roots) (g.distance roots n + 1) e.target

namespace Breadth

/-- A path to an unmarked node leaves the marked ones through the queue. -/
theorem exists_pending (h : w.Breadth g roots) (hn : g.ReachedIn roots k n) :
    n ∈ w.marked ∨ ∃ q ∈ w.pending, oneBeyond (g.distance roots) q.source ≤ k := by
  induction hn with
  | root hn => exact (h.started _ hn).imp_right fun ⟨q, hq, _, hk⟩ => ⟨q, hq, hk⟩
  | @edge k n es e hn hes he ih =>
    rcases ih with hmarked | ⟨q, hq, hk⟩
    · have hle : g.distance roots n ≤ k := hn.isLeast.2 hn
      exact (h.edges n hmarked es hes e he).imp_right fun ⟨q, hq, _, hk⟩ => ⟨q, hq, by omega⟩
    · exact .inr ⟨q, hq, by omega⟩

theorem distance_front (h : w.Breadth g roots) (hw : w.pending = p :: rest)
    (hp : p.node ∉ w.marked) :
    g.distance roots p.node = oneBeyond (g.distance roots) p.source := by
  have hpath := h.queued p (hw ▸ List.mem_cons_self)
  refine le_antisymm (hpath.isLeast.2 hpath) ?_
  rcases h.exists_pending hpath.isLeast.1 with hmarked | ⟨q, hq, hk⟩
  · exact absurd hmarked hp
  · rcases List.mem_cons.mp (hw ▸ hq) with rfl | hq
    · exact hk
    · exact ((hw ▸ h.order).front q hq).1.trans hk

theorem skip (h : w.Breadth g roots) (hw : w.pending = p :: rest) (hp : p.node ∈ w.marked) :
    { w with pending := rest }.skip.Breadth g roots := by
  have hmove : Move g.Answer w { w with pending := rest }.skip := .skip hw hp
  exact ⟨(hw ▸ h.order).tail, h.deferred, h.reached,
    fun q hq => h.queued q (hw ▸ List.mem_cons_of_mem _ hq),
    fun n hn => (h.started n hn).move hmove,
    fun n hn es hes e he => (h.edges n hn es hes e he).move hmove⟩

theorem mark (h : w.Breadth g roots) (hg : g.Unconditional) (hw : w.pending = p :: rest)
    (hp : p.node ∉ w.marked) (ha : g.Answer p.node deps) :
    ({ w with pending := rest }.mark p deps).Breadth g roots := by
  obtain ⟨hedges, hconditional⟩ := g.answer_iff.mp ha
  have hfront := h.distance_front hw hp
  have hpath := h.queued p (hw ▸ List.mem_cons_self)
  have hmove : Move g.Answer w ({ w with pending := rest }.mark p deps) := .mark hw hp ha
  obtain ⟨hdeferred, new, hpending, hnew⟩ :=
    mark_unconditional (w := { w with pending := rest }) (p := p) h.deferred (hg _ _ hconditional)
  have hmarked : ({ w with pending := rest }.mark p deps).marked = w.marked ++ [p.node] :=
    mark_marked ..
  have horder : ByDistance (g.distance roots) (w.marked ++ [p.node]) (rest ++ new) :=
    (hw ▸ h.order).mark hfront fun q hq => (hnew q hq).1
  refine ⟨hmarked ▸ hpending ▸ horder, hdeferred, fun n hn => ?_, fun q hq => ?_,
    fun n hn => (h.started n hn).move hmove, fun n hn es hes e he => ?_⟩
  · rcases List.mem_append.mp (hmarked ▸ hn) with hn | hn
    · exact h.reached n hn
    · exact ⟨_, List.mem_singleton.mp hn ▸ hpath⟩
  · rcases List.mem_append.mp (hpending ▸ hq) with hq | hq
    · exact h.queued q (hw ▸ List.mem_cons_of_mem _ hq)
    · obtain ⟨hsource, e, he, htarget⟩ := hnew q hq
      rw [hsource, ← htarget]
      exact .edge hpath.isLeast.1 hedges he
  · rcases List.mem_append.mp (hmarked ▸ hn) with hn | hn
    · exact (h.edges n hn es hes e he).move hmove
    · obtain rfl := List.mem_singleton.mp hn
      cases hedges.symm.trans hes
      have hseen := (settled_mark { w with pending := rest } p deps).edges e he
      refine hseen.imp_right fun ⟨q, hq, hnode⟩ => ⟨q, hq, hnode, ?_⟩
      rcases List.mem_append.mp (hpending ▸ hq) with hq | hq
      · rw [hfront]
        exact ((hw ▸ h.order).front q hq).2
      · rw [(hnew q hq).1]
        exact le_rfl

theorem move (h : w.Breadth g roots) (hg : g.Unconditional) (hm : Move g.Answer w v) :
    v.Breadth g roots := by
  cases hm with
  | skip hw hp => exact h.skip hw hp
  | mark hw hp ha => exact h.mark hg hw hp ha
  | wave => exact ⟨h.order, h.deferred, h.reached, h.queued, h.started, h.edges⟩

theorem moves (h : w.Breadth g roots) (hg : g.Unconditional) (hm : Moves g.Answer w v) :
    v.Breadth g roots := by
  induction hm with
  | refl => exact h
  | tail _ hm ih => exact ih.move hg hm

end Breadth

theorem seeded_concat (level : TrackingLevel) (roots : List (NodeId × String))
    (r : NodeId × String) :
    seeded level (roots ++ [r]) = (seeded level roots).addRoot r.1 r.2 := by
  rw [seeded, List.foldl_append]
  rfl

/-- Before a walk begins, its roots are queued in their order and nothing else is. -/
theorem seeded_eq (level : TrackingLevel) (roots : List (NodeId × String)) :
    (seeded level roots).marked = [] ∧ (seeded level roots).deferred = [] ∧
      (seeded level roots).pending = roots.map fun r => ⟨r.1, none, r.2⟩ := by
  induction roots using List.reverseRecOn with
  | nil => exact ⟨rfl, rfl, rfl⟩
  | append_singleton roots r ih =>
    obtain ⟨hmarked, hdeferred, hpending⟩ := ih
    rw [seeded_concat]
    simp [addRoot, enqueue_eq, hmarked, hdeferred, hpending]

theorem breadth_seeded (g : FixedGraph ε) (level : TrackingLevel)
    (roots : List (NodeId × String)) :
    (seeded level roots).Breadth g {n | n ∈ roots.map (·.1)} := by
  obtain ⟨hmarked, hdeferred, hpending⟩ := seeded_eq level roots
  have hsource : ∀ p ∈ (seeded level roots).pending, p.source = none := by
    intro p hp
    obtain ⟨r, -, rfl⟩ := List.mem_map.mp (hpending ▸ hp)
    rfl
  refine ⟨⟨by simp [hmarked], by simp [hmarked], ?_⟩, hdeferred, by simp [hmarked], fun p hp => ?_,
    fun n hn => ?_, by simp [hmarked]⟩
  · refine List.pairwise_of_forall_mem_list fun p hp q hq => ?_
    rw [hsource p hp, hsource q hq]
    exact ⟨le_rfl, Nat.le_succ _⟩
  · obtain ⟨r, hr, rfl⟩ := List.mem_map.mp (hpending ▸ hp)
    exact .root (List.mem_map.mpr ⟨r, hr, rfl⟩)
  · obtain ⟨r, hr, rfl⟩ := List.mem_map.mp hn
    exact .inr ⟨⟨r.1, none, r.2⟩, hpending ▸ List.mem_map_of_mem hr, rfl, le_rfl⟩

theorem Lockstep.seeded {R : Walk → Walk → Prop} (hR : Lockstep R) {level level' : TrackingLevel}
    (h : R (.start level) (.start level')) (roots : List (NodeId × String)) :
    R (.seeded level roots) (.seeded level' roots) := by
  induction roots using List.reverseRecOn with
  | nil => exact h
  | append_singleton roots r ih =>
    rw [seeded_concat, seeded_concat]
    exact hR.root ih r.1 r.2

/-- Every first mark was made from the distance below. -/
def Stepwise (distance : NodeId → ℕ) (w : Walk) : Prop :=
  ∃ marks, w.record = .first marks ∧
    ∀ n o, marks.origin? n = some o → distance n = oneBeyond distance o.source

theorem stepwise_seeded (distance : NodeId → ℕ) (roots : List (NodeId × String)) :
    (seeded .first roots).Stepwise distance := by
  refine ⟨.empty, ?_, by simp [FirstMarks.empty, FirstMarks.origin?]⟩
  induction roots using List.reverseRecOn with
  | nil => rfl
  | append_singleton roots r ih =>
    rw [seeded_concat, addRoot, enqueue_eq, ih]
    rfl

theorem Stepwise.move (h : w.Stepwise (g.distance roots)) (hw : w.Breadth g roots)
    (hm : Move g.Answer w v) : v.Stepwise (g.distance roots) := by
  obtain ⟨marks, hrecord, hmarks⟩ := h
  cases hm with
  | skip => exact ⟨marks, hrecord, hmarks⟩
  | @mark p rest deps hpending hp ha =>
    refine ⟨marks.note p.node p.origin, ?_, fun n o ho => ?_⟩
    · rw [mark_eq, hrecord, Record.noteMark, Record.foldl_noteEdge_first]
      rfl
    · rw [FirstMarks.origin?_note, Option.or_eq_some_iff] at ho
      rcases ho with ho | ⟨-, ho⟩
      · exact hmarks n o ho
      · obtain ⟨rfl, rfl⟩ : p.node = n ∧ p.origin = o := by simpa using ho
        exact hw.distance_front hpending hp
  | wave => exact ⟨marks, hrecord, hmarks⟩

theorem Stepwise.moves (h : w.Stepwise (g.distance roots)) (hw : w.Breadth g roots)
    (hg : g.Unconditional) (hm : Moves g.Answer w v) : v.Stepwise (g.distance roots) := by
  induction hm with
  | refl => exact h
  | tail hms hm ih => exact ih.move (hw.moves hg hms) hm

end Walk

/-- A chain of origins that ends at a root and whose every hop leads to the distance below has as
many hops as there are distances. -/
theorem length_of_follow {distance : NodeId → ℕ} {origin? : NodeId → Option Origin}
    (h : ∀ n o, origin? n = some o → distance n = oneBeyond distance o.source) {hops : ℕ}
    {n : NodeId} {os : List Origin} {root : Origin} (hroot : root.source = none)
    (hos : follow origin? hops n = some (os ++ [root])) : os.length = distance n := by
  induction hops generalizing n os with
  | zero => simp [follow] at hos
  | succ hops ih =>
    rw [follow] at hos
    cases ho : origin? n with
    | none => simp [ho] at hos
    | some o =>
      rw [h n o ho]
      cases hsource : o.source with
      | none =>
        have hlast : os ++ [root] = [o] := by simpa [ho, hsource] using hos.symm
        have hlength := congrArg List.length hlast
        simpa [oneBeyond] using hlength
      | some m =>
        simp only [ho, hsource, Option.map_eq_some_iff] at hos
        obtain ⟨rest, hrest, hcons⟩ := hos
        cases os with
        | nil =>
          obtain ⟨rfl, -⟩ : o = root ∧ rest = [] := by simpa using hcons
          rw [hroot] at hsource
          cases hsource
        | cons o' os =>
          obtain ⟨-, rfl⟩ := List.cons.inj hcons
          rw [List.length_cons, ih hrest]
          rfl

/-- Of two walks that tell alike, both records lead back from a marked node in as many hops. -/
theorem Walk.TellAlike.length_trail {distance : NodeId → ℕ} {v w : Walk} (h : v.TellAlike w)
    (hv : v.Stepwise distance) {n : NodeId} (hn : n ∈ v.marked) :
    ∃ os, v.record.trail n = some os ∧ w.record.trail n = some os ∧
      os.length = distance n + 1 := by
  obtain ⟨u, marks, log, rfl, rfl, story, -⟩ := h
  obtain ⟨marks', hrecord, hmarks⟩ := hv
  cases hrecord
  obtain ⟨os, root, hroot, hfirst, hall⟩ := story.trail_eq hn
  refine ⟨os ++ [root], hfirst, hall, ?_⟩
  rw [List.length_append, length_of_follow hmarks hroot hfirst]
  rfl

namespace FixedGraph

variable {ε : Type} {g : FixedGraph ε}

/-- Over a graph without conditional edges, wherever a walk from some roots stopped: each marked
node lies at some distance from the roots along edges, the path of its discovery has one hop more
than that, and the nodes were marked in the order of their distances. -/
theorem discovered_by_distance (hg : g.Unconditional) (level : TrackingLevel)
    (hlevel : level ≠ .none) (roots : List (NodeId × String)) (inWaves : Bool) :
    let ended := (g.toGraph.walk inWaves (.seeded level roots) ()).walk
    let distance := g.distance {n | n ∈ roots.map (·.1)}
    (∀ n ∈ ended.marked, IsLeast {k | g.ReachedIn {n | n ∈ roots.map (·.1)} k n} (distance n) ∧
      ∃ os, ended.record.trail n = some os ∧ os.length = distance n + 1) ∧
    ended.marked.Pairwise fun m n => distance m ≤ distance n := by
  have hbreadth := (Walk.breadth_seeded g level roots).moves hg (g.walk_moves inWaves _)
  have hstepwise := (Walk.stepwise_seeded (g.distance {n | n ∈ roots.map (·.1)}) roots).moves
    (Walk.breadth_seeded g .first roots) hg (g.walk_moves inWaves _)
  have halike := (g.toGraph.walk_together Walk.lockstep_tellAlike
    (Walk.lockstep_tellAlike.seeded Walk.tellAlike_start roots) inWaves ()).walk
  refine ⟨fun n hn => ?_, hbreadth.order.sorted⟩
  obtain ⟨k, hk⟩ := hbreadth.reached n hn
  refine ⟨hk.isLeast, ?_⟩
  cases level with
  | none => exact absurd rfl hlevel
  | first =>
    obtain ⟨os, hos, -, hlength⟩ := halike.length_trail hstepwise hn
    exact ⟨os, hos, hlength⟩
  | all =>
    obtain ⟨os, -, hos, hlength⟩ :=
      halike.length_trail hstepwise (Walk.lockstep_tellAlike.marked halike ▸ hn)
    exact ⟨os, hos, hlength⟩

/-- A wave walk stops at node 2. Node 3 was asked for by the two roots, and its path is that of the
first. -/
theorem discovered_by_distance_stalling :
    let roots := [(NodeId.small 1, "start"), (NodeId.small 0, "main")]
    let ended := stalling.toGraph.walk true (.seeded .all roots) ()
    stalling.Unconditional ∧ ended.error.isSome ∧
    ended.walk.marked.map (·.index) = [1, 0, 4, 3] ∧
    ended.walk.record.trail (.small 3) = some [⟨some (.small 1), "e"⟩, ⟨none, "start"⟩] ∧
    stalling.distance {n | n ∈ roots.map (·.1)} (.small 3) = 1 := by
  have hg : stalling.Unconditional := by
    intro n ds hds
    cases hds
    rfl
  have hmarked : .small 3 ∈ (stalling.toGraph.walk true
      (.seeded .all [(.small 1, "start"), (.small 0, "main")]) ()).walk.marked :=
    of_decide_eq_true (by cbv)
  have htrail : (stalling.toGraph.walk true
      (.seeded .all [(.small 1, "start"), (.small 0, "main")]) ()).walk.record.trail (.small 3) =
      some [⟨some (.small 1), "e"⟩, ⟨none, "start"⟩] := by cbv
  obtain ⟨-, os, hos, hlength⟩ := (discovered_by_distance hg .all (by decide)
    [(.small 1, "start"), (.small 0, "main")] true).1 _ hmarked
  cases htrail.symm.trans hos
  exact ⟨hg, by cbv, by cbv, htrail, (Nat.succ.inj hlength).symm⟩

end FixedGraph

end AheadOfTime
