import AheadOfTime.Proofs.Marking.Closure

/-! Where marks come from. Whatever a walk asks for or has recorded was asked for by a root or by a
marked node (`Sourced`), and so the way back from any pending mark goes through marked nodes. -/

namespace AheadOfTime

/-- A chain is made of recorded origins. -/
theorem exists_origin_of_follow {origin? : NodeId → Option Origin} {hops : Nat} {n : NodeId}
    {os : List Origin} (h : follow origin? hops n = some os) :
    ∀ o ∈ os, ∃ m, origin? m = some o := by
  induction hops generalizing n os with
  | zero =>
    obtain rfl : [] = os := Option.some.inj h
    simp
  | succ hops ih =>
    rw [follow] at h
    split at h
    · cases h
    · rename_i r hr
      split at h
      · cases h
        intro o ho
        rw [List.mem_singleton.mp ho]
        exact ⟨n, hr⟩
      · obtain ⟨rest, hrest, rfl⟩ := Option.map_eq_some_iff.mp h
        intro o ho
        rcases List.mem_cons.mp ho with rfl | ho
        · exact ⟨n, hr⟩
        · exact ih hrest o ho

def RecordedEdge.origin (e : RecordedEdge) : Origin := ⟨e.source, e.reason⟩

namespace Record

/-- All origins that a record holds. -/
def origins : Record → List Origin
  | .off => []
  | .first marks => marks.entries.map (·.2)
  | .all log => log.edges.map RecordedEdge.origin

variable {r : Record} {n : NodeId} {o : Origin}

theorem mem_origins_noteMark {origin : Origin} (h : o ∈ (r.noteMark n origin).origins) :
    o ∈ r.origins ∨ o = origin := by
  cases r with
  | first marks =>
    simp only [noteMark, FirstMarks.note] at h
    split at h
    · exact .inl h
    · simpa [origins] using h
  | _ => exact .inl h

theorem mem_origins_noteEdge {e : RecordedEdge} (h : o ∈ (r.noteEdge e).origins) :
    o ∈ r.origins ∨ o = e.origin := by
  cases r with
  | all log =>
    simp only [noteEdge, EdgeLog.note] at h
    split at h
    · exact .inl h
    · simpa [origins, or_comm, eq_comm] using h
  | _ => exact .inl h

theorem mem_origins_foldl {es : List RecordedEdge} (h : o ∈ (es.foldl noteEdge r).origins) :
    o ∈ r.origins ∨ ∃ e ∈ es, o = e.origin := by
  induction es generalizing r with
  | nil => exact .inl h
  | cons e es ih =>
    rcases ih h with h | ⟨e', he', rfl⟩
    · rcases mem_origins_noteEdge h with h | rfl
      · exact .inl h
      · exact .inr ⟨e, List.mem_cons_self, rfl⟩
    · exact .inr ⟨e', List.mem_cons_of_mem _ he', rfl⟩

theorem mem_origins_of_trail {os : List Origin} (h : r.trail n = some os) :
    ∀ o ∈ os, o ∈ r.origins := by
  intro o ho
  cases r with
  | off => cases h
  | first marks =>
    obtain ⟨m, hm⟩ := exists_origin_of_follow h o ho
    obtain ⟨before, after, hentries, -⟩ := List.lookup_eq_some_iff.mp hm
    simp [origins, hentries]
  | all log =>
    obtain ⟨m, hm⟩ := exists_origin_of_follow h o ho
    rw [EdgeLog.origin?, Option.bind_eq_bind, Option.bind_eq_some_iff] at hm
    obtain ⟨position, -, hm⟩ := hm
    obtain ⟨e, he, hm⟩ := Option.bind_eq_some_iff.mp hm
    cases hm
    exact List.mem_map.mpr ⟨e, List.mem_of_getElem? he, rfl⟩

end Record

namespace Walk

/-- Everything asked for was asked for by a root or a marked node. -/
structure Sourced (w : Walk) : Prop where
  pending : ∀ p ∈ w.pending, ∀ n, p.source = some n → n ∈ w.marked
  deferred : ∀ d ∈ w.deferred, d.source ∈ w.marked
  record : ∀ o ∈ w.record.origins, ∀ n, o.source = some n → n ∈ w.marked

variable {A : NodeId → Dependencies → Prop} {w v : Walk} {p : Candidate} {deps : Dependencies}

/-- Marking goes along edges of marked nodes alone, the new one among them. -/
theorem Sourced.traversed (h : w.Sourced) :
    ∀ e ∈ w.traversed p deps, ∀ n, e.source = some n → n ∈ w.marked ++ [p.node] := by
  intro e he n hn
  rcases mem_traversed.mp he with ⟨d, hd, -, rfl⟩ | ⟨d, hd, rfl⟩ | ⟨d, hd, -, rfl⟩
  · cases hn
    exact List.mem_append_left _ (h.deferred d hd)
  · cases hn
    exact List.mem_append_right _ List.mem_cons_self
  · cases hn
    exact List.mem_append_right _ List.mem_cons_self

theorem Sourced.mark (h : w.Sourced) (hp : ∀ n, p.source = some n → n ∈ w.marked) :
    (w.mark p deps).Sourced := by
  have hold : ∀ n ∈ w.marked, n ∈ w.marked ++ [p.node] := fun n => List.mem_append_left _
  rw [mark_eq]
  refine ⟨fun q hq n hn => ?_, fun d hd => ?_, fun o ho n hn => ?_⟩
  · rcases List.mem_append.mp hq with hq | hq
    · exact hold n (h.pending q hq n hn)
    · obtain ⟨e, he, rfl⟩ := List.mem_map.mp (List.mem_filter.mp hq).1
      exact h.traversed e he n hn
  · rcases mem_waiting.mp hd with ⟨hd, -⟩ | ⟨e, -, -, rfl⟩
    · exact hold _ (h.deferred d hd)
    · exact List.mem_append_right _ List.mem_cons_self
  · rcases Record.mem_origins_foldl ho with ho | ⟨e, he, rfl⟩
    · rcases Record.mem_origins_noteMark ho with ho | rfl
      · exact hold n (h.record o ho n hn)
      · exact hold n (hp n hn)
    · exact h.traversed e he n hn

theorem Sourced.move (hm : Move A w v) (h : w.Sourced) : v.Sourced := by
  cases hm with
  | skip hw hp =>
    exact ⟨fun q hq => h.pending q (hw ▸ List.mem_cons_of_mem _ hq), h.deferred, h.record⟩
  | @mark p rest deps hw hp ha =>
    have hrest : ({ w with pending := rest } : Walk).Sourced :=
      ⟨fun q hq => h.pending q (hw ▸ List.mem_cons_of_mem _ hq), h.deferred, h.record⟩
    exact hrest.mark (h.pending p (hw ▸ List.mem_cons_self))
  | wave => exact ⟨h.pending, h.deferred, h.record⟩

theorem Sourced.moves (hm : Moves A w v) (h : w.Sourced) : v.Sourced := by
  induction hm with
  | refl => exact h
  | tail _ hm ih => exact ih.move hm

theorem sourced_start (level : TrackingLevel) : (start level).Sourced := by
  refine ⟨by simp [start], by simp [start], ?_⟩
  cases level <;> simp [start, Record.start, Record.origins, FirstMarks.empty, EdgeLog.empty]

theorem Sourced.addRoot (h : w.Sourced) (n : NodeId) (reason : String) :
    (w.addRoot n reason).Sourced := by
  rw [Walk.addRoot, enqueue_eq]
  refine ⟨fun p hp m hm => ?_, h.deferred, fun o ho m hm => ?_⟩
  · rcases List.mem_append.mp hp with hp | hp
    · exact h.pending p hp m hm
    · rw [List.mem_singleton.mp (List.mem_filter.mp hp).1] at hm
      cases hm
  · rcases Record.mem_origins_noteEdge ho with ho | rfl
    · exact h.record o ho m hm
    · cases hm

/-- The way back from a pending mark goes through marked nodes. -/
theorem Sourced.trailTo (h : w.Sourced) (hp : p ∈ w.pending) :
    ∀ o ∈ w.trailTo p, ∀ n, o.source = some n → n ∈ w.marked := by
  intro o ho n hn
  rcases List.mem_cons.mp ho with rfl | ho
  · exact h.pending p hp n hn
  · cases hsource : p.source with
    | none => simp [hsource] at ho
    | some m =>
      rw [hsource, Option.bind_some] at ho
      cases htrail : w.record.trail m with
      | none => simp [htrail] at ho
      | some os =>
        rw [htrail] at ho
        exact h.record o (Record.mem_origins_of_trail htrail o ho) n hn

/-- The path that a failure tells is the same whenever the names of marked nodes are. -/
theorem Sourced.path_eq {ε : Type} (h : w.Sourced) (hp : p ∈ w.pending)
    {name name' : NodeId → String} (hnames : ∀ n ∈ w.marked, name n = name' n) (cause : ε) :
    (w.failure name p cause).path = (w.failure name' p cause).path := by
  refine List.map_congr_left fun o ho => ?_
  have hmarked := h.trailTo hp o ho
  unfold hop
  split
  · rename_i n hn
    rw [hnames n (hmarked n hn)]
  · rfl

end Walk

end AheadOfTime
