import AheadOfTime.Proofs.Marking.EdgeLog
import AheadOfTime.Proofs.Marking.Origins
import AheadOfTime.Proofs.Marking.Lockstep
import AheadOfTime.Proofs.Marking.Resumed

/-! How nodes were discovered. The record of first marks hears of a node when it is marked, the log
of edges when somebody asks for it first. Both tell the same (`SameStory`), since the first mark to
be made is the first asked for: of an unmarked node, the log knows what stands first in the queue.
Main statement: walks that differ only in which of the two they keep agree on all that is told of
marked nodes. -/

namespace AheadOfTime

/-- Following origins that lead to lower and lower nodes comes to a root, whatever number of hops
above the height of the node it may take. -/
theorem follow_root {origin? : NodeId → Option Origin} {nodes : List NodeId}
    (h : ∀ n ∈ nodes, ∃ o, origin? n = some o ∧
      ∀ m, o.source = some m → m ∈ nodes ∧ nodes.idxOf m < nodes.idxOf n)
    {n : NodeId} (hn : n ∈ nodes) :
    ∃ os root, root.source = none ∧
      ∀ hops, nodes.idxOf n < hops → follow origin? hops n = some (os ++ [root]) := by
  induction hheight : nodes.idxOf n using Nat.strong_induction_on generalizing n with
  | h height ih =>
    obtain ⟨o, ho, hlower⟩ := h n hn
    cases hsource : o.source with
    | none =>
      refine ⟨[], o, hsource, fun hops hhops => ?_⟩
      obtain ⟨k, rfl⟩ := Nat.exists_eq_succ_of_ne_zero (by omega : hops ≠ 0)
      simp [follow, ho, hsource]
    | some m =>
      obtain ⟨hm, hlt⟩ := hlower m hsource
      obtain ⟨os, root, hroot, hfollow⟩ := ih _ (hheight ▸ hlt) hm rfl
      refine ⟨o :: os, root, hroot, fun hops hhops => ?_⟩
      obtain ⟨k, rfl⟩ := Nat.exists_eq_succ_of_ne_zero (by omega : hops ≠ 0)
      simp [follow, ho, hsource, hfollow k (by omega)]

/-- Following depends on the origins of those nodes alone that it meets. -/
theorem follow_congr {origin? origin'? : NodeId → Option Origin} {nodes : List NodeId}
    (hagree : ∀ n ∈ nodes, origin? n = origin'? n)
    (hsource : ∀ n ∈ nodes, ∀ o, origin? n = some o → ∀ m, o.source = some m → m ∈ nodes)
    {n : NodeId} (hn : n ∈ nodes) (hops : Nat) :
    follow origin? hops n = follow origin'? hops n := by
  induction hops generalizing n with
  | zero => rfl
  | succ hops ih =>
    rw [follow, follow, ← hagree n hn]
    cases ho : origin? n with
    | none => rfl
    | some o =>
      cases hm : o.source with
      | none => simp [hm]
      | some m => simp [hm, ih (hsource n hn o ho m hm)]

def Candidate.origin (p : Candidate) : Origin := ⟨p.source, p.reason⟩

namespace EdgeLog

variable {l : EdgeLog}

/-- The index of first edges is that of the edges. -/
def Indexed (l : EdgeLog) : Prop :=
  ∀ n, l.firstInto.lookup n = l.edges.findIdx? (·.target = n)

theorem indexed_empty : EdgeLog.empty.Indexed := by
  intro n
  rfl

theorem Indexed.note (h : l.Indexed) (e : RecordedEdge) : (l.note e).Indexed := by
  intro n
  unfold EdgeLog.note
  by_cases he : e ∈ l.edges
  · rw [if_pos he]
    exact h n
  · simp only [if_neg he, List.findIdx?_append, ← h n]
    cases hfirst : l.firstInto.lookup e.target with
    | some i =>
      by_cases hn : e.target = n
      · simp [← hn, hfirst]
      · simp [hn]
    | none =>
      simp only [List.lookup_append]
      by_cases hn : e.target = n
      · simp [hn]
      · have hne : (n == e.target) = false := by simpa using fun h => hn h.symm
        simp [hn, List.lookup_cons, hne]

theorem Indexed.origin?_eq (h : l.Indexed) (n : NodeId) :
    l.origin? n = (l.into n).head?.map RecordedEdge.origin := by
  rw [into, List.head?_filter, List.find?_eq_bind_findIdx?_getElem?, ← h n]
  unfold origin?
  cases l.firstInto.lookup n with
  | none => rfl
  | some i => cases hi : l.edges[i]? <;> simp [hi, RecordedEdge.origin]

/-- The first edge into a node stays the first. -/
theorem head?_into_note (l : EdgeLog) (e : RecordedEdge) (n : NodeId) :
    ((l.note e).into n).head? = (l.into n).head?.or (if e.target = n then some e else none) := by
  simp only [into, List.head?_filter, edges_note]
  split
  · rename_i he
    by_cases hn : e.target = n
    · have hsome : (l.edges.find? (·.target = n)).isSome :=
        List.find?_isSome.mpr ⟨e, he, decide_eq_true hn⟩
      obtain ⟨d, hd⟩ := Option.isSome_iff_exists.mp hsome
      simp [hd]
    · simp [hn]
  · by_cases hn : e.target = n <;> simp [List.find?_append, hn]

theorem Indexed.origin?_note (h : l.Indexed) (e : RecordedEdge) (n : NodeId) :
    (l.note e).origin? n = (l.origin? n).or (if e.target = n then some e.origin else none) := by
  rw [(h.note e).origin?_eq, h.origin?_eq, head?_into_note]
  cases (l.into n).head? <;> by_cases hn : e.target = n <;> simp [hn]

end EdgeLog

namespace FirstMarks

variable {f : FirstMarks} {n : NodeId}

theorem entries_note (hn : f.origin? n = none) (o : Origin) :
    (f.note n o).entries = f.entries ++ [(n, o)] := by
  rw [note, hn]

/-- The first origin of a node stays the first. -/
theorem origin?_note (f : FirstMarks) (n : NodeId) (o : Origin) (m : NodeId) :
    (f.note n o).origin? m = (f.origin? m).or (if n = m then some o else none) := by
  cases hn : f.origin? n with
  | some o' =>
    rw [note, hn]
    by_cases hm : n = m
    · simp [← hm, hn]
    · simp [hm]
  | none =>
    rw [origin?, entries_note hn, List.lookup_append, ← origin?]
    by_cases hm : n = m
    · simp [hm]
    · have hne : (m == n) = false := by simpa using fun h => hm h.symm
      simp [List.lookup_cons, hne, hm]

end FirstMarks

/-- The two records of the same marks and the same queue. -/
structure SameStory (marked : List NodeId) (pending : List Candidate) (marks : FirstMarks)
    (log : EdgeLog) : Prop where
  nodup : marked.Nodup
  nodes : marks.entries.map (·.1) = marked
  indexed : log.Indexed
  told : ∀ n ∈ marked, marks.origin? n = log.origin? n
  asked : ∀ n ∉ marked, log.origin? n = (pending.find? (·.node = n)).map Candidate.origin
  earlier : ∀ n o, marks.origin? n = some o → ∀ m, o.source = some m →
    m ∈ marked ∧ marked.idxOf m < marked.idxOf n

namespace SameStory

variable {marked : List NodeId} {pending : List Candidate} {marks : FirstMarks} {log : EdgeLog}
  {p : Candidate} {n : NodeId}

theorem start : SameStory [] [] .empty .empty where
  nodup := List.nodup_nil
  nodes := rfl
  indexed := EdgeLog.indexed_empty
  told n hn := by cases hn
  asked n _ := rfl
  earlier n o ho := by cases ho

theorem isSome_origin? (h : SameStory marked pending marks log) :
    (marks.origin? n).isSome ↔ n ∈ marked := by
  rw [← h.nodes, FirstMarks.origin?, List.lookup_isSome_iff]
  simp

theorem skip (h : SameStory marked (p :: pending) marks log) (hp : p.node ∈ marked) :
    SameStory marked pending marks log := by
  refine ⟨h.nodup, h.nodes, h.indexed, h.told, fun n hn => ?_, h.earlier⟩
  have hne : p.node ≠ n := by
    rintro rfl
    exact hn hp
  rw [h.asked n hn, List.find?_cons_of_neg (by simpa using hne)]

/-- The mark that is made is the one that was asked for first. -/
theorem mark (h : SameStory marked (p :: pending) marks log) (hp : p.node ∉ marked)
    (hsource : ∀ m, p.source = some m → m ∈ marked) :
    SameStory (marked ++ [p.node]) pending (marks.note p.node p.origin) log := by
  have hnone : marks.origin? p.node = none := by
    rw [← Option.not_isSome_iff_eq_none, h.isSome_origin?]
    exact hp
  have hlower (m : NodeId) (hm : m ∈ marked) : m ∈ marked ++ [p.node] ∧
      (marked ++ [p.node]).idxOf m = marked.idxOf m :=
    ⟨List.mem_append_left _ hm, List.idxOf_append_of_mem hm⟩
  refine ⟨h.nodup.append (List.nodup_singleton _) (by simpa using hp), ?_, h.indexed, ?_, ?_, ?_⟩
  · rw [FirstMarks.entries_note hnone, List.map_append, h.nodes]
    rfl
  · intro n hn
    rw [FirstMarks.origin?_note]
    rcases List.mem_append.mp hn with hn | hn
    · obtain ⟨o, ho⟩ := Option.isSome_iff_exists.mp (h.isSome_origin?.mpr hn)
      rw [← h.told n hn, ho, Option.some_or]
    · rw [List.mem_singleton.mp hn, hnone, h.asked _ hp]
      simp
  · intro n hn
    obtain ⟨hn, hne⟩ : n ∉ marked ∧ n ≠ p.node := by simpa using hn
    rw [h.asked n hn, List.find?_cons_of_neg (by simpa using fun e => hne e.symm)]
  · intro n o ho m hm
    rw [FirstMarks.origin?_note, Option.or_eq_some_iff] at ho
    rcases ho with ho | ⟨-, ho⟩
    · obtain ⟨hmarked, hlt⟩ := h.earlier n o ho m hm
      have hn : n ∈ marked := h.isSome_origin?.mp (by rw [ho]; rfl)
      rw [(hlower m hmarked).2, (hlower n hn).2]
      exact ⟨(hlower m hmarked).1, hlt⟩
    · obtain ⟨rfl, rfl⟩ : p.node = n ∧ p.origin = o := by simpa using ho
      have hmarked := hsource m hm
      have hlt := List.idxOf_lt_length_iff.mpr hmarked
      rw [(hlower m hmarked).2, List.idxOf_append_of_notMem hp]
      exact ⟨(hlower m hmarked).1, by omega⟩

/-- Whoever goes along an edge to an unmarked node both asks for it and records that. -/
theorem pass (h : SameStory marked pending marks log) (e : RecordedEdge) :
    SameStory marked (pending ++ [e.candidate].filter (·.node ∉ marked)) marks (log.note e) := by
  refine ⟨h.nodup, h.nodes, h.indexed.note e, fun n hn => ?_, fun n hn => ?_, h.earlier⟩
  · have hsome : (log.origin? n).isSome := by
      rw [← h.told n hn]
      exact h.isSome_origin?.mpr hn
    obtain ⟨o, ho⟩ := Option.isSome_iff_exists.mp hsome
    rw [h.indexed.origin?_note, h.told n hn, ho, Option.some_or]
  · rw [h.indexed.origin?_note, h.asked n hn, List.find?_append]
    cases pending.find? (·.node = n) with
    | some q => simp
    | none =>
      by_cases he : e.target = n
      · simp [RecordedEdge.candidate, Candidate.origin, RecordedEdge.origin, he, hn]
      · simp [RecordedEdge.candidate, he]

theorem pass_all (h : SameStory marked pending marks log) (es : List RecordedEdge) :
    SameStory marked (pending ++ (es.map RecordedEdge.candidate).filter (·.node ∉ marked)) marks
      (es.foldl EdgeLog.note log) := by
  induction es generalizing pending log with
  | nil => simpa using h
  | cons e es ih =>
    have hrest := ih (h.pass e)
    rw [List.append_assoc, ← List.filter_append] at hrest
    exact hrest

theorem exists_origin (h : SameStory marked pending marks log) (hn : n ∈ marked) :
    ∃ o, marks.origin? n = some o ∧
      ∀ m, o.source = some m → m ∈ marked ∧ marked.idxOf m < marked.idxOf n := by
  obtain ⟨o, ho⟩ := Option.isSome_iff_exists.mp (h.isSome_origin?.mpr hn)
  exact ⟨o, ho, h.earlier n o ho⟩

theorem length_le_firstInto (h : SameStory marked pending marks log) :
    marked.length ≤ log.firstInto.length := by
  have hsubset : marked ⊆ log.firstInto.map (·.1) := by
    intro n hn
    obtain ⟨o, ho, -⟩ := h.exists_origin hn
    have hlog := (h.told n hn).symm.trans ho
    rw [EdgeLog.origin?, Option.bind_eq_bind, Option.bind_eq_some_iff] at hlog
    obtain ⟨i, hi, -⟩ := hlog
    have hsome : (log.firstInto.lookup n).isSome := by rw [hi]; rfl
    simpa [List.lookup_isSome_iff] using hsome
  simpa using (List.subperm_of_subset h.nodup hsubset).length_le

/-- From a marked node both records lead back to a root, on the same way. -/
theorem trail_eq (h : SameStory marked pending marks log) (hn : n ∈ marked) :
    ∃ os root, root.source = none ∧ marks.trail n = some (os ++ [root]) ∧
      log.trail n = some (os ++ [root]) := by
  obtain ⟨os, root, hroot, hfollow⟩ := follow_root (fun m hm => h.exists_origin hm) hn
  have hlt : marked.idxOf n < marked.length := List.idxOf_lt_length_iff.mpr hn
  have hsize : marks.size = marked.length := by
    rw [FirstMarks.size, ← h.nodes, List.length_map]
  have hfirst := h.length_le_firstInto
  have hsource : ∀ m ∈ marked, ∀ o, marks.origin? m = some o → ∀ k, o.source = some k →
      k ∈ marked := fun m _ o ho k hk => (h.earlier m o ho k hk).1
  refine ⟨os, root, hroot, hfollow _ (by omega), ?_⟩
  rw [EdgeLog.trail, ← follow_congr h.told hsource hn]
  exact hfollow _ (by omega)

/-- The first edge into a marked node is what it was marked for. -/
theorem into_eq (h : SameStory marked pending marks log) (hn : n ∈ marked) :
    ∃ e later, log.into n = e :: later ∧ marks.origin? n = some ⟨e.source, e.reason⟩ := by
  obtain ⟨o, ho, -⟩ := h.exists_origin hn
  have hlog := (h.told n hn).symm.trans ho
  rw [h.indexed.origin?_eq] at hlog
  cases hinto : log.into n with
  | nil => simp [hinto] at hlog
  | cons e later =>
    rw [hinto] at hlog
    exact ⟨e, later, rfl, ho.trans hlog.symm⟩

/-- Both reports show the marked nodes alike, up to further reasons in the second. -/
theorem reports_alike (h : SameStory marked pending marks log) (name : NodeId → String) :
    List.Forall₂ (fun i i' => i.name = i'.name ∧ ∃ source reason condition later,
        i.reasons = [⟨source, none, reason⟩] ∧ i'.reasons = ⟨source, condition, reason⟩ :: later)
      (marks.report name marked).items (log.report name marked).items := by
  rw [EdgeLog.report, FirstMarks.report, EdgeLog.reportItems_eq_map h.nodup,
    List.forall₂_map_left_iff, List.forall₂_map_right_iff, List.forall₂_same]
  intro n hn
  obtain ⟨e, later, hinto, horigin⟩ := h.into_eq hn
  rw [EdgeLog.into] at hinto
  refine ⟨rfl, e.source.map name, e.reason, e.condition.map name, later.map (EdgeLog.reason name),
    ?_, ?_⟩
  · simp [horigin]
  · simp [hinto, EdgeLog.reason]

end SameStory

namespace Walk

/-- The same walk with another record. -/
def recording (w : Walk) (r : Record) : Walk := { w with record := r }

theorem addRoot_recording (w : Walk) (r : Record) (n : NodeId) (reason : String) :
    (w.recording r).addRoot n reason =
      (w.addRoot n reason).recording (r.noteEdge ⟨none, n, none, reason⟩) := by
  simp only [addRoot, enqueue_eq, recording]

theorem mark_recording (w : Walk) (r : Record) (p : Candidate) (deps : Dependencies) :
    (w.recording r).mark p deps = (w.mark p deps).recording
      ((w.traversed p deps).foldl Record.noteEdge (r.noteMark p.node p.origin)) := by
  simp only [mark_eq, recording]
  rfl

/-- Walks that differ in their records alone, of first marks and of all edges, which tell the
same. -/
def TellAlike (v w : Walk) : Prop :=
  ∃ (u : Walk) (marks : FirstMarks) (log : EdgeLog), v = u.recording (.first marks) ∧
    w = u.recording (.all log) ∧ SameStory u.marked u.pending marks log ∧ v.Sourced

theorem lockstep_tellAlike : Lockstep TellAlike where
  marked := by
    rintro v w ⟨u, marks, log, rfl, rfl, -, -⟩
    rfl
  pending := by
    rintro v w ⟨u, marks, log, rfl, rfl, -, -⟩
    rfl
  root := by
    rintro v w ⟨u, marks, log, rfl, rfl, story, sourced⟩ n reason
    refine ⟨u.addRoot n reason, marks, log.note ⟨none, n, none, reason⟩, ?_, ?_, ?_,
      sourced.addRoot n reason⟩
    · rw [addRoot_recording]
      rfl
    · rw [addRoot_recording]
      rfl
    · rw [addRoot, enqueue_eq]
      exact story.pass ⟨none, n, none, reason⟩
  skip := by
    rintro v w p rest ⟨u, marks, log, rfl, rfl, story, sourced⟩ hv hp
    have hpending : u.pending = p :: rest := hv
    have hmove : Move (fun _ _ => True) _ _ := .skip hv hp
    rw [hpending] at story
    exact ⟨{ u with pending := rest }.skip, marks, log, rfl, rfl, story.skip hp,
      sourced.move hmove⟩
  mark := by
    rintro v w p rest ⟨u, marks, log, rfl, rfl, story, sourced⟩ hv hp deps
    have hpending : u.pending = p :: rest := hv
    have hmove : Move (fun _ _ => True) (u.recording (.first marks))
        ({ u.recording (.first marks) with pending := rest }.mark p deps) := .mark hv hp trivial
    have hrest (r : Record) : { u.recording r with pending := rest } =
        ({ u with pending := rest } : Walk).recording r := rfl
    refine ⟨{ u with pending := rest }.mark p deps, marks.note p.node p.origin,
      (u.traversed p deps).foldl EdgeLog.note log, ?_, ?_, ?_, sourced.move hmove⟩
    · rw [hrest, mark_recording, Record.noteMark, Record.foldl_noteEdge_first]
    · rw [hrest, mark_recording, Record.noteMark_all, Record.foldl_noteEdge_all]
      rfl
    · have hsource : ∀ m, p.source = some m → m ∈ u.marked :=
        sourced.pending p (hv ▸ List.mem_cons_self)
      rw [hpending] at story
      rw [mark_eq]
      exact (story.mark hp hsource).pass_all (u.traversed p deps)
  wave := by
    rintro v w ⟨u, marks, log, rfl, rfl, story, sourced⟩
    exact ⟨u.countWave, marks, log, rfl, rfl, story,
      ⟨sourced.pending, sourced.deferred, sourced.record⟩⟩

theorem tellAlike_start : TellAlike (start .first) (start .all) :=
  ⟨start .first, .empty, .empty, rfl, rfl, .start, sourced_start .first⟩

end Walk

namespace SameStory

variable {u : Walk} {marks : FirstMarks} {log : EdgeLog} {p : Candidate}

/-- The way back from a pending mark ends at a root and is the same by both records. -/
theorem trailTo_eq (h : SameStory u.marked u.pending marks log)
    (hp : ∀ n, p.source = some n → n ∈ u.marked) :
    ∃ os root, root.source = none ∧ (u.recording (.first marks)).trailTo p = os ++ [root] ∧
      (u.recording (.all log)).trailTo p = os ++ [root] := by
  cases hsource : p.source with
  | none =>
    refine ⟨[], p.origin, hsource, ?_, ?_⟩ <;> simp [Walk.trailTo, hsource, Candidate.origin]
  | some n =>
    obtain ⟨os, root, hroot, hfirst, hall⟩ := h.trail_eq (hp n hsource)
    refine ⟨p.origin :: os, root, hroot, ?_, ?_⟩
    · simp [Walk.trailTo, Walk.recording, Record.trail, hsource, hfirst, Candidate.origin]
    · simp [Walk.trailTo, Walk.recording, Record.trail, hsource, hall, Candidate.origin]

theorem failure_eq {ε : Type} (h : SameStory u.marked u.pending marks log)
    (hp : ∀ n, p.source = some n → n ∈ u.marked) (name : NodeId → String) (cause : ε) :
    (u.recording (.all log)).failure name p cause =
        (u.recording (.first marks)).failure name p cause ∧
      ∃ reason, ((u.recording (.first marks)).failure name p cause).path.getLast? =
        some ("root (" ++ reason ++ ")") := by
  obtain ⟨os, root, hroot, hfirst, hall⟩ := h.trailTo_eq hp
  refine ⟨?_, root.reason, ?_⟩
  · simp only [Walk.failure, hfirst, hall]
  · simp [Walk.failure, hfirst, Walk.hop, hroot]

end SameStory

/-- Two walks are told the same, over graphs that may be others at every turn, and one keeps first
marks, the other all edges. At any time both have marked the same nodes; of each, the first mark is
the first edge into it and both records lead back to a root on the same way; both reports show the
nodes alike, and the reasons in the second begin with the one in the first. If one walk fails, so
does the other, with the same error, whose path ends at a root. -/
theorem records_tell_alike {σ ε : Type} (s : σ) (turns : List (Graph σ ε × Command)) :
    let first := performTurns .first s turns
    let all := performTurns .all s turns
    ∃ marks log, first.walk.record = .first marks ∧ all.walk.record = .all log ∧
      all.walk.marked = first.walk.marked ∧
      (∀ n ∈ first.walk.marked,
        (∃ e later, log.into n = e :: later ∧ marks.origin? n = some ⟨e.source, e.reason⟩) ∧
        ∃ os root, root.source = none ∧ marks.trail n = some (os ++ [root]) ∧
          log.trail n = some (os ++ [root])) ∧
      (∀ name, ∃ r r', first.walk.report name = some r ∧ all.walk.report name = some r' ∧
        r.items.map (·.name) = first.walk.marked.map name ∧
        List.Forall₂ (fun i i' => i.name = i'.name ∧ ∃ source reason condition later,
          i.reasons = [⟨source, none, reason⟩] ∧ i'.reasons = ⟨source, condition, reason⟩ :: later)
          r.items r'.items) ∧
      ((first.error = none ∧ all.error = none) ∨ ∃ e reason, first.error = some e ∧
        all.error = some e ∧ e.path.getLast? = some ("root (" ++ reason ++ ")")) := by
  obtain ⟨⟨u, marks, log, hfirst, hall, story, sourced⟩, -, herror⟩ :=
    performTurns_together Walk.lockstep_tellAlike Walk.tellAlike_start s turns
  rw [hfirst] at sourced herror
  rw [hall] at herror
  intro first all
  refine ⟨marks, log, by rw [hfirst]; rfl, by rw [hall]; rfl, by rw [hall, hfirst]; rfl, ?_, ?_, ?_⟩
  · intro n hn
    rw [hfirst] at hn
    exact ⟨story.into_eq hn, story.trail_eq hn⟩
  · intro name
    rw [hall, hfirst]
    refine ⟨_, _, rfl, rfl, ?_, story.reports_alike name⟩
    rw [FirstMarks.report, List.map_map]
    rfl
  · rcases herror with herror | ⟨p, hp, name, cause, hfailed, hfailed'⟩
    · exact .inl herror
    · obtain ⟨hsame, reason, hlast⟩ := story.failure_eq (sourced.pending p hp) name cause
      rw [hsame] at hfailed'
      exact .inr ⟨_, reason, hfailed, hfailed', hlast⟩

/-- The graph changes after a wave that failed, and the next walk fails somewhere else. Node 3 is
asked for by 0, by 1 and as a late root. -/
theorem records_tell_alike_unstalled :
    let turns : List (Graph Unit String × Command) :=
      [(FixedGraph.stalling.toGraph, .root (.small 0) "main"),
        (FixedGraph.stalling.toGraph, .walk true),
        (FixedGraph.unstalled.toGraph, .root (.small 3) "late"),
        (FixedGraph.unstalled.toGraph, .walk false)]
    let first := performTurns .first () turns
    let all := performTurns .all () turns
    .small 3 ∈ first.walk.marked ∧ first.error.isSome ∧ first.error = all.error ∧
    ∃ marks log, first.walk.record = .first marks ∧ all.walk.record = .all log ∧
      ∃ e later, log.into (.small 3) = e :: later ∧
        marks.origin? (.small 3) = some ⟨e.source, e.reason⟩ := by
  have hmarked : .small 3 ∈ (performTurns .first ()
      [(FixedGraph.stalling.toGraph, .root (.small 0) "main"),
        (FixedGraph.stalling.toGraph, .walk true),
        (FixedGraph.unstalled.toGraph, .root (.small 3) "late"),
        (FixedGraph.unstalled.toGraph, .walk false)]).walk.marked := of_decide_eq_true (by cbv)
  obtain ⟨marks, log, hfirst, hall, -, htold, -, herror⟩ := records_tell_alike ()
    [(FixedGraph.stalling.toGraph, .root (.small 0) "main"),
      (FixedGraph.stalling.toGraph, .walk true),
      (FixedGraph.unstalled.toGraph, .root (.small 3) "late"),
      (FixedGraph.unstalled.toGraph, .walk false)]
  refine ⟨hmarked, by cbv, ?_, marks, log, hfirst, hall, (htold _ hmarked).1⟩
  rcases herror with ⟨h, h'⟩ | ⟨e, -, h, h', -⟩
  · exact h.trans h'.symm
  · exact h.trans h'.symm

end AheadOfTime
