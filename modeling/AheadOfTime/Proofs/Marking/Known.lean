import AheadOfTime.Proofs.Marking.Closure
import AheadOfTime.Proofs.Marking.Observed

/-! Walks that ask about known nodes only. Let some nodes be known in each state, and let answers
about known nodes lead to nodes that are known by then (`Graph.Familiar`). A walk whose roots are
known then never asks about any other, so what only such questions keep holds at its end
(`Familiar.walk`). An account of the questions, each with the state that it was asked in, tells this
of every one of them (`Familiar.noted_walk`). -/

namespace AheadOfTime

namespace Walk

variable {S T : Set NodeId} {w : Walk}

/-- All that a walk may still have to ask about lies in a set. -/
structure Ahead (S : Set NodeId) (w : Walk) : Prop where
  pending : ∀ p ∈ w.pending, p.node ∈ S
  deferred : ∀ d ∈ w.deferred, d.target ∈ S

theorem Ahead.mono (h : w.Ahead S) (hST : S ⊆ T) : w.Ahead T :=
  ⟨fun p hp => hST (h.pending p hp), fun d hd => hST (h.deferred d hd)⟩

theorem Ahead.rest (h : w.Ahead S) {p : Candidate} {rest : List Candidate}
    (hw : w.pending = p :: rest) : ({ w with pending := rest } : Walk).Ahead S :=
  ⟨fun q hq => h.pending q (hw ▸ List.mem_cons_of_mem _ hq), h.deferred⟩

theorem Ahead.mark (h : w.Ahead S) {p : Candidate} {deps : Dependencies} (hdeps : deps.LeadInto S) :
    (w.mark p deps).Ahead S := by
  rw [mark_eq]
  refine ⟨fun q hq => ?_, fun d hd => ?_⟩
  · rcases List.mem_append.mp hq with hq | hq
    · exact h.pending q hq
    · obtain ⟨e, he, rfl⟩ := List.mem_map.mp (List.mem_filter.mp hq).1
      rcases mem_traversed.mp he with ⟨d, hd, -, rfl⟩ | ⟨d, hd, rfl⟩ | ⟨d, hd, -, rfl⟩
      · exact h.deferred d hd
      · exact hdeps.edges d hd
      · exact hdeps.conditional d hd
  · rcases mem_waiting.mp hd with ⟨hd, -⟩ | ⟨e, he, -, rfl⟩
    · exact h.deferred d hd
    · exact hdeps.conditional e he

end Walk

namespace Graph

variable {σ ε : Type} {g : Graph σ ε} {I : σ → Prop} {known : σ → Set NodeId} {w : Walk} {s : σ}

/-- Questions about known nodes keep what holds of the state and what is known, and lead to nodes
that are known afterwards. -/
structure Familiar (g : Graph σ ε) (I : σ → Prop) (known : σ → Set NodeId) : Prop where
  keeps : ∀ {s n}, I s → n ∈ known s → I (g.query n s).2
  stays : ∀ {s n}, I s → n ∈ known s → known s ⊆ known (g.query n s).2
  leads : ∀ {s n deps}, I s → n ∈ known s → (g.query n s).1 = .ok deps →
    deps.LeadInto (known (g.query n s).2)

namespace Familiar

variable (h : g.Familiar I known)
include h

theorem drain (hs : I s) (hw : w.Ahead (known s)) : I (g.drain w s).state := by
  fun_induction Graph.drain g w s with
  | case1 w s hnil => exact hs
  | case2 w s p rest hcons hp ih => exact ih hs ⟨(hw.rest hcons).pending, hw.deferred⟩
  | case3 w s p rest hcons hp cause s' hq =>
    have hkept := h.keeps hs (hw.pending p (hcons ▸ List.mem_cons_self))
    rwa [hq] at hkept
  | case4 w s p rest hcons hp deps s' hq ih =>
    have hp := hw.pending p (hcons ▸ List.mem_cons_self)
    have hkept := h.keeps hs hp
    have hstays := h.stays hs hp
    have hleads : deps.LeadInto (known (g.query p.node s).2) := h.leads hs hp (by rw [hq])
    rw [hq] at hkept hstays hleads
    exact ih hkept (((hw.rest hcons).mono hstays).mark hleads)

/-- After some questions about known nodes. -/
theorem queryAll {ns : List NodeId} (hs : I s) (hns : ∀ n ∈ ns, n ∈ known s) :
    I (g.queryAll ns s).2 ∧ known s ⊆ known (g.queryAll ns s).2 ∧
      ∀ a ∈ (g.queryAll ns s).1, ∀ deps, a.2 = .ok deps →
        deps.LeadInto (known (g.queryAll ns s).2) := by
  induction ns generalizing s with
  | nil => exact ⟨hs, subset_rfl, by simp [Graph.queryAll]⟩
  | cons n ns ih =>
    have hn := hns n List.mem_cons_self
    have hstays := h.stays hs hn
    obtain ⟨hkept, hrest, hleads⟩ :=
      ih (h.keeps hs hn) fun m hm => hstays (hns m (List.mem_cons_of_mem _ hm))
    refine ⟨hkept, hstays.trans hrest, fun a ha deps hdeps => ?_⟩
    rcases List.mem_cons.mp ha with rfl | ha
    · exact (h.leads hs hn hdeps).mono hrest
    · exact hleads a ha deps hdeps

theorem answerFor {answers : List (NodeId × Except ε Dependencies)} {n : NodeId} (hs : I s)
    (hn : n ∈ known s)
    (hanswers : ∀ a ∈ answers, ∀ deps, a.2 = .ok deps → deps.LeadInto (known s)) :
    I (g.answerFor answers n s).2 ∧ known s ⊆ known (g.answerFor answers n s).2 ∧
      ∀ deps, (g.answerFor answers n s).1 = .ok deps →
        deps.LeadInto (known (g.answerFor answers n s).2) := by
  unfold Graph.answerFor
  split
  · rename_i answer hanswer
    obtain ⟨l₁, l₂, rfl, -⟩ := List.lookup_eq_some_iff.mp hanswer
    exact ⟨hs, subset_rfl, hanswers (n, answer) (by simp)⟩
  · exact ⟨h.keeps hs hn, h.stays hs hn, fun deps => h.leads hs hn⟩

theorem applyWave {answers : List (NodeId × Except ε Dependencies)} {ps : List Candidate}
    (hs : I s) (hps : ∀ p ∈ ps, p.node ∈ known s) (hw : w.Ahead (known s))
    (hanswers : ∀ a ∈ answers, ∀ deps, a.2 = .ok deps → deps.LeadInto (known s)) :
    let o := g.applyWave answers ps w s
    I o.state ∧ (o.error = none → o.walk.Ahead (known o.state)) := by
  induction ps generalizing w s with
  | nil => exact ⟨hs, fun _ => hw⟩
  | cons p ps ih =>
    have hrest : ∀ q ∈ ps, q.node ∈ known s := fun q hq => hps q (List.mem_cons_of_mem _ hq)
    intro o
    unfold o Graph.applyWave
    split
    · exact ih hs hrest ⟨hw.pending, hw.deferred⟩ hanswers
    · obtain ⟨hkept, hstays, hleads⟩ := h.answerFor hs (hps p List.mem_cons_self) hanswers
      split <;> rename_i hq <;> rw [hq] at hkept hstays hleads
      · exact ⟨hkept, fun herror => by cases herror⟩
      -- what is known grows, so what the earlier answers lead to stays known
      · exact ih hkept (fun q hq => hstays (hrest q hq)) ((hw.mono hstays).mark (hleads _ rfl))
          fun a ha deps hdeps => (hanswers a ha deps hdeps).mono hstays

theorem wave (hs : I s) (hw : w.Ahead (known s)) :
    I (g.wave w s).state ∧
      ((g.wave w s).error = none → (g.wave w s).walk.Ahead (known (g.wave w s).state)) := by
  have hwave : ∀ n ∈ w.waveNodes, n ∈ known s := by
    intro n hn
    obtain ⟨p, hp, rfl⟩ := List.mem_map.mp (List.mem_filter.mp (List.mem_eraseDups.mp hn)).1
    exact hw.pending p hp
  obtain ⟨hkept, hstays, hleads⟩ := h.queryAll hs hwave
  exact h.applyWave hkept (fun p hp => hstays (hw.pending p hp))
    ⟨by simp [Walk.beginWave], (hw.mono hstays).deferred⟩ hleads

theorem drainWaves (hs : I s) (hw : w.Ahead (known s)) : I (g.drainWaves w s).state := by
  fun_induction Graph.drainWaves g w s with
  | case1 w s hnil => exact hs
  | case2 w s hne w' s' ho ih =>
    obtain ⟨hkept, hahead⟩ := h.wave hs hw
    rw [ho] at hkept hahead
    exact ih hkept (hahead rfl)
  | case3 w s hne hfail => exact (h.wave hs hw).1

theorem walk (inWaves : Bool) (hs : I s) (hw : w.Ahead (known s)) :
    I (g.walk inWaves w s).state := by
  cases inWaves with
  | false => exact h.drain hs hw
  | true => exact h.drainWaves hs hw

end Familiar

/-- The same graph, which also notes down each node that is asked for its edges, with the state in
which it is asked. -/
def noted (g : Graph σ ε) : Graph (List (NodeId × σ) × σ) ε where
  name t := g.name t.2
  edges n t := ((g.edges n t.2).1, t.1 ++ [(n, t.2)], (g.edges n t.2).2)
  conditional n t := ((g.conditional n t.2).1, t.1, (g.conditional n t.2).2)

theorem noted_query (n : NodeId) (t : List (NodeId × σ) × σ) :
    g.noted.query n t = ((g.query n t.2).1, t.1 ++ [(n, t.2)], (g.query n t.2).2) := by
  rcases he : g.edges n t.2 with ⟨e | es, s⟩
  · simp [query, noted, he]
  · rcases hc : g.conditional n s with ⟨e | ds, s'⟩ <;> simp [query, noted, he, hc]

theorem noted_over (g : Graph σ ε) : g.noted.Over g Prod.snd where
  name _ := rfl
  query n t := by rw [noted_query]

/-- All questions of a walk from known roots are about nodes that are known when they are asked. -/
theorem Familiar.noted_walk (h : g.Familiar I known) (inWaves : Bool) (hs : I s)
    (hw : w.Ahead (known s)) :
    ∀ q ∈ (g.noted.walk inWaves w ([], s)).state.1, I q.2 ∧ q.1 ∈ known q.2 := by
  have hnoted : g.noted.Familiar
      (fun t => I t.2 ∧ ∀ q ∈ t.1, I q.2 ∧ q.1 ∈ known q.2) fun t => known t.2 := by
    refine ⟨fun {t n} ht hn => ?_, fun {t n} ht hn => ?_, fun {t n deps} ht hn hdeps => ?_⟩
    · rw [noted_query]
      refine ⟨h.keeps ht.1 hn, List.forall_mem_append.mpr ⟨ht.2, ?_⟩⟩
      rintro q hq
      rw [List.mem_singleton.mp hq]
      exact ⟨ht.1, hn⟩
    · rw [noted_query]
      exact h.stays ht.1 hn
    · rw [noted_query] at hdeps ⊢
      exact h.leads ht.1 hn hdeps
  exact (hnoted.walk inWaves ⟨hs, by simp⟩ hw).2

end Graph

end AheadOfTime
