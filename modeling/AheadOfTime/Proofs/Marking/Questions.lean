import AheadOfTime.Proofs.Except
import AheadOfTime.Proofs.Marking.Asked
import AheadOfTime.Proofs.Marking.Observed

/-! No question is asked in vain. From any point of a walk on, nobody is asked who is marked by
then (`Spares`). A walk that takes marks one by one asks once for each mark that it makes and once
where it fails (`length_asked_drain`); a wave asks the distinct unmarked nodes of its queue, each
once, and goes through them without asking again (`applyOnce_eq`). -/

namespace AheadOfTime

namespace Graph

variable {σ ε : Type} (g : Graph σ ε)

theorem query_traced (n : NodeId) (t : List NodeId × σ) :
    (g.traced.query n t).2.1 = t.1 ++ [n] := by
  rcases he : g.edges n t.2 with ⟨e | es, s⟩
  · simp [query, traced, he]
  · rcases hc : g.conditional n s with ⟨e | ds, s'⟩ <;> simp [query, traced, he, hc]

variable {g} in
theorem asked_of_query {n : NodeId} {t t' : List NodeId × σ} {answer : Except ε Dependencies}
    (hq : g.traced.query n t = (answer, t')) : t'.1 = t.1 ++ [n] := by
  have hasked := g.query_traced n t
  rwa [hq] at hasked

theorem queryAll_traced (ns : List NodeId) (t : List NodeId × σ) :
    (g.traced.queryAll ns t).2.1 = t.1 ++ ns := by
  induction ns generalizing t with
  | nil => exact (List.append_nil t.1).symm
  | cons n ns ih =>
    rw [queryAll, ih, query_traced, List.append_assoc]
    rfl

theorem pops_succ (inWaves : Bool) (k : ℕ) (x : Stage σ ε) :
    g.pops inWaves (k + 1) x = (g.pops inWaves k x).elim .inl (g.pop inWaves) := by
  induction k generalizing x with
  | zero =>
    simp only [pops, Sum.elim_inr]
    cases g.pop inWaves x <;> rfl
  | succ k ih =>
    rw [pops, pops]
    cases g.pop inWaves x with
    | inl o => rfl
    | inr y => exact ih y

variable {g} in
theorem pops_of_le {inWaves : Bool} {k j : ℕ} {x : Stage σ ε} {o : Outcome σ ε}
    (h : g.pops inWaves k x = .inl o) (hkj : k ≤ j) : g.pops inWaves j x = .inl o := by
  induction hkj with
  | refl => exact h
  | step _ ih =>
    rw [pops_succ, ih]
    rfl

theorem Over.performAll {τ : Type} {g' : Graph τ ε} {g : Graph σ ε} {f : τ → σ}
    (h : g'.Over g f) (level : TrackingLevel) (t : τ) (cs : List Command) :
    g.performAll level (f t) cs = (g'.performAll level t cs).map f := by
  induction cs using List.reverseRecOn with
  | nil => rfl
  | append_singleton cs c ih => rw [performAll_concat, performAll_concat, ih, h.perform]

end Graph

/-- From one point to a later one, each with the nodes marked and those asked by then: what was
marked stays so, and none of it was asked about. -/
structure Spares (marked asked marked' asked' : List NodeId) : Prop where
  kept : marked ⊆ marked'
  fresh : ∃ ns, asked' = asked ++ ns ∧ ∀ n ∈ ns, n ∉ marked

namespace Spares

variable {marked asked marked' asked' marked'' asked'' : List NodeId}

theorem trans (h : Spares marked asked marked' asked')
    (h' : Spares marked' asked' marked'' asked'') : Spares marked asked marked'' asked'' := by
  obtain ⟨ns, hns, hunmarked⟩ := h.fresh
  obtain ⟨ms, hms, hunmarked'⟩ := h'.fresh
  refine ⟨List.Subset.trans h.kept h'.kept, ns ++ ms, ?_, ?_⟩
  · rw [hms, hns, List.append_assoc]
  · exact List.forall_mem_append.mpr ⟨hunmarked, fun n hn hm => hunmarked' n hn (h.kept hm)⟩

theorem silent (h : marked ⊆ marked') (asked : List NodeId) : Spares marked asked marked' asked :=
  ⟨h, [], (List.append_nil _).symm, by simp⟩

theorem refl (marked asked : List NodeId) : Spares marked asked marked asked :=
  .silent (List.Subset.refl _) asked

end Spares

namespace Graph

variable {σ ε : Type} (g : Graph σ ε) (inWaves : Bool)

theorem refill_spares (x : Stage (List NodeId × σ) ε) :
    Spares x.walk.marked x.state.1 (g.traced.refill inWaves x).walk.marked
      (g.traced.refill inWaves x).state.1 := by
  rcases g.traced.refill_cases inWaves x with ⟨-, h⟩ | ⟨p, rest, -, -, -, h⟩ | ⟨-, -, -, h⟩ <;>
    rw [h]
  · exact .refl ..
  · exact .refl ..
  · exact ⟨List.Subset.refl _, _, g.queryAll_traced _ _,
      fun n hn => not_mem_of_mem_unmarkedIn hn⟩

theorem answerFor_spares (answers : List (NodeId × Except ε Dependencies)) {n : NodeId}
    {marked marked' : List NodeId} (hn : n ∉ marked) (hmarked : marked ⊆ marked')
    (t : List NodeId × σ) :
    Spares marked t.1 marked' (g.traced.answerFor answers n t).2.1 := by
  unfold answerFor
  split
  · exact .silent hmarked _
  · exact ⟨hmarked, [n], g.query_traced n t, by simpa using hn⟩

theorem pop_spares (x : Stage (List NodeId × σ) ε) :
    Spares x.walk.marked x.state.1 (position (g.traced.pop inWaves x)).1.marked
      (position (g.traced.pop inWaves x)).2.1 := by
  refine (g.refill_spares inWaves x).trans ?_
  have hpopped := g.traced.popped inWaves x
  generalize g.traced.refill inWaves x = y at hpopped ⊢
  generalize g.traced.pop inWaves x = result at hpopped ⊢
  cases hpopped with
  | through hx hw => exact .refl ..
  | skip hx hp => exact .refl ..
  | fail hx hp ha =>
    have h := g.answerFor_spares y.answers hp (List.Subset.refl _) y.state
    rw [ha] at h
    exact h
  | @mark p rest deps s hx hp ha =>
    have hmarked : y.walk.marked ⊆ (y.walk.mark p deps).marked := by simp
    have h := g.answerFor_spares y.answers hp hmarked y.state
    rw [ha] at h
    exact h

theorem pops_spares {k j : ℕ} (hkj : k ≤ j) (x : Stage (List NodeId × σ) ε) :
    Spares (position (g.traced.pops inWaves k x)).1.marked
      (position (g.traced.pops inWaves k x)).2.1
      (position (g.traced.pops inWaves j x)).1.marked
      (position (g.traced.pops inWaves j x)).2.1 := by
  induction hkj with
  | refl => exact .refl ..
  | @step j _ ih =>
    refine ih.trans ?_
    rw [pops_succ]
    cases g.traced.pops inWaves j x with
    | inl o => exact .refl ..
    | inr y => exact g.pop_spares inWaves y

/-- Whatever point of a walk is taken, it is on the way to the end of the walk. -/
theorem position_spares (k : ℕ) (w : Walk) (t : List NodeId × σ) :
    Spares (position (g.traced.pops inWaves k (.start w t))).1.marked
      (position (g.traced.pops inWaves k (.start w t))).2.1
      (g.traced.walk inWaves w t).walk.marked (g.traced.walk inWaves w t).state.1 := by
  obtain ⟨i, hi⟩ := g.traced.exists_pops inWaves w t
  have h := g.pops_spares inWaves (k.le_add_right i) (.start w t)
  rw [pops_of_le hi (i.le_add_left k)] at h
  exact h

theorem commands_spares (o : Outcome (List NodeId × σ) ε) (cs : List Command) :
    Spares o.walk.marked o.state.1 (cs.foldl g.traced.perform o).walk.marked
      (cs.foldl g.traced.perform o).state.1 := by
  induction cs generalizing o with
  | nil => exact .refl ..
  | cons c cs ih =>
    refine .trans ?_ (ih (g.traced.perform o c))
    cases c with
    | root n reason => exact .silent (by simp [perform, Walk.addRoot]) _
    | walk inWaves => exact g.position_spares inWaves 0 o.walk o.state

/-- How many walks fail among some commands. -/
def failedWalks (level : TrackingLevel) (s : σ) (cs : List Command) : ℕ :=
  cs.inits.countP fun before => (g.performAll level s before).error.isSome

theorem failedWalks_concat (level : TrackingLevel) (s : σ) (cs : List Command) (c : Command) :
    g.failedWalks level s (cs ++ [c]) = g.failedWalks level s cs +
      if (g.performAll level s (cs ++ [c])).error.isSome then 1 else 0 := by
  simp [failedWalks, List.inits_append, List.countP_append, List.countP_singleton]

/-- One by one, there is a question for each mark that is made, and one more that fails. -/
theorem length_asked_drain (w : Walk) (t : List NodeId × σ) :
    (g.traced.drain w t).state.1.length + w.counters.marked =
      t.1.length + (g.traced.drain w t).walk.counters.marked +
        if (g.traced.drain w t).error.isSome then 1 else 0 := by
  fun_induction drain g.traced w t with
  | case1 w t hw => simp
  | case2 w t p rest hw hp ih => exact ih
  | case3 w t p rest hw hp cause t' hq =>
    rw [asked_of_query hq, List.length_append, List.length_singleton]
    exact Nat.add_right_comm ..
  | case4 w t p rest hw hp deps t' hq ih =>
    simp only [Walk.mark_eq, asked_of_query hq, List.length_append, List.length_singleton] at ih ⊢
    omega

/-- The waves of a walk, each with the walk and the state at which it begins, from the next one to
where the walk ends: with nothing pending, or in a wave that fails. -/
inductive Waves (g : Graph σ ε) : Walk → σ → List (Walk × σ) → Outcome σ ε → Prop where
  | through {w s} (hw : w.pending = []) : Waves g w s [] ⟨w, s, none⟩
  | fail {w s} (hw : w.pending ≠ []) (he : (g.wave w s).error.isSome) :
      Waves g w s [(w, s)] (g.wave w s)
  | next {w s vs o} (hw : w.pending ≠ []) (he : (g.wave w s).error = none)
      (h : Waves g (g.wave w s).walk (g.wave w s).state vs o) : Waves g w s ((w, s) :: vs) o

theorem exists_waves (w : Walk) (s : σ) : ∃ vs, g.Waves w s vs (g.drainWaves w s) := by
  fun_induction drainWaves g w s with
  | case1 w s hw => exact ⟨[], .through hw⟩
  | case2 w s hw w' s' ho ih =>
    obtain ⟨vs, hvs⟩ := ih
    have he : (g.wave w s).error = none := by rw [ho]
    have hrest : g.Waves (g.wave w s).walk (g.wave w s).state vs (g.drainWaves w' s') := by
      rwa [ho]
    exact ⟨(w, s) :: vs, .next hw he hrest⟩
  | case3 w s hw hfail =>
    have he : (g.wave w s).error.isSome := by
      rw [Option.isSome_iff_ne_none]
      exact fun he => hfail _ _ (by rw [← he])
    exact ⟨[(w, s)], .fail hw he⟩

/-- Uses answers for the marks of a wave, each answer once, without asking anybody. There is no
outcome if a mark finds no answer left. -/
def applyOnce (g : Graph σ ε) :
    List (NodeId × Except ε Dependencies) → List Candidate → Walk → σ → Option (Outcome σ ε)
  | _, [], w, s => some ⟨w, s, none⟩
  | answers, p :: rest, w, s =>
    if p.node ∈ w.marked then g.applyOnce answers rest w.skip s
    else
      match answers.lookup p.node with
      | none => none
      | some (.error cause) =>
        some ⟨{ w with pending := p :: rest ++ w.pending }, s, some (w.failure (g.name s) p cause)⟩
      | some (.ok deps) =>
        g.applyOnce (answers.filter (·.1 ≠ p.node)) rest (w.mark p deps) s

/-- If each unmarked node of a wave is answered about, the wave needs each answer once. -/
theorem applyOnce_eq (answers left : List (NodeId × Except ε Dependencies)) (ps : List Candidate)
    (w : Walk) (s : σ) (hanswered : ∀ n ∈ unmarkedIn w.marked ps, (answers.lookup n).isSome)
    (hleft : ∀ n ∈ unmarkedIn w.marked ps, left.lookup n = answers.lookup n) :
    g.applyOnce left ps w s = some (g.applyWave answers ps w s) := by
  induction ps generalizing left w with
  | nil => rfl
  | cons p ps ih =>
    by_cases hp : p.node ∈ w.marked
    · rw [unmarkedIn_cons_of_mem hp] at hanswered hleft
      rw [applyOnce, applyWave, if_pos hp, if_pos hp]
      exact ih left w.skip hanswered hleft
    · rw [unmarkedIn_cons_of_not_mem hp] at hanswered hleft
      obtain ⟨answer, hanswer⟩ := Option.isSome_iff_exists.mp (hanswered _ List.mem_cons_self)
      have hlookup := (hleft _ List.mem_cons_self).trans hanswer
      rw [applyOnce, applyWave, if_neg hp, if_neg hp, answerFor, hanswer, hlookup]
      cases answer with
      | error cause => rfl
      | ok deps =>
        have hmarked : (w.mark p deps).marked = w.marked ++ [p.node] := Walk.mark_marked w p deps
        refine ih _ (w.mark p deps) (fun n hn => ?_) fun n hn => ?_ <;> rw [hmarked] at hn
        · exact hanswered n (List.mem_cons_of_mem _ hn)
        · rw [lookup_filter_ne, if_neg (ne_of_mem_unmarkedIn hn)]
          exact hleft n (List.mem_cons_of_mem _ hn)

theorem map_fst_queryAll (ns : List NodeId) (s : σ) : (g.queryAll ns s).1.map (·.1) = ns := by
  induction ns generalizing s with
  | nil => rfl
  | cons n ns ih => exact congrArg (n :: ·) (ih _)

/-- One wave, whose marks use up the answers that it got. -/
def waveOnce (g : Graph σ ε) (w : Walk) (s : σ) : Option (Outcome σ ε) :=
  g.applyOnce (g.queryAll w.waveNodes s).1 w.pending w.beginWave (g.queryAll w.waveNodes s).2

theorem waveOnce_eq (w : Walk) (s : σ) : g.waveOnce w s = some (g.wave w s) := by
  refine g.applyOnce_eq _ _ w.pending w.beginWave _ (fun n hn => ?_) fun _ _ => rfl
  have hn' : n ∈ (g.queryAll w.waveNodes s).1.map (·.1) := by
    rw [map_fst_queryAll]
    exact hn
  obtain ⟨a, ha, rfl⟩ := List.mem_map.mp hn'
  exact List.lookup_isSome_iff.mpr ⟨a, ha, beq_self_eq_true a.1⟩

theorem mem_waveNodes {w : Walk} {n : NodeId} :
    n ∈ w.waveNodes ↔ n ∉ w.marked ∧ ∃ p ∈ w.pending, p.node = n := by
  simp [Walk.waveNodes, and_comm]

/-- A walk that ends without an error has asked the nodes that it marked, each once. -/
theorem asked_of_ok {w : Walk} {t : List NodeId × σ}
    (h : (g.traced.walk inWaves w t).error = none) :
    ∃ ns, ns.Nodup ∧ (g.traced.walk inWaves w t).state.1 = t.1 ++ ns ∧
      (g.traced.walk inWaves w t).walk.marked = w.marked ++ ns := by
  obtain ⟨ns, hns⟩ := walk_asks (g := g.traced) inWaves w t
  exact ⟨ns, hns.nodup, by rw [hns.state, queryAll_traced], hns.marked h⟩

theorem asked_wave (w : Walk) (t : List NodeId × σ) :
    (g.traced.wave w t).state.1 = t.1 ++ w.waveNodes := by
  rw [(wave_asks w t).state, queryAll_traced]

variable {g} in
theorem Over.failedWalks_eq {τ : Type} {g' : Graph τ ε} {f : τ → σ} (h : g'.Over g f)
    (level : TrackingLevel) (t : τ) (cs : List Command) :
    g.failedWalks level (f t) cs = g'.failedWalks level t cs := by
  simp only [failedWalks, h.performAll]
  rfl

/-- As long as marks are taken one by one, there is a question for each node that was marked and
one for each walk that failed. -/
theorem length_asked (level : TrackingLevel) (s : σ) (cs : List Command)
    (hcs : .walk true ∉ cs) :
    (g.traced.performAll level ([], s) cs).state.1.length =
      (g.traced.performAll level ([], s) cs).walk.counters.marked + g.failedWalks level s cs := by
  rw [g.traced_over.failedWalks_eq level ([], s)]
  induction cs using List.reverseRecOn with
  | nil => simp [failedWalks, performAll, Walk.start]
  | append_singleton cs c ih =>
    obtain ⟨hbefore, hc⟩ : .walk true ∉ cs ∧ .walk true ≠ c := by simpa using hcs
    have hlength := ih hbefore
    rw [failedWalks_concat, performAll_concat]
    cases c with
    | root n reason =>
      have hroot (o : Outcome (List NodeId × σ) ε) :
          (o.walk.addRoot n reason).counters.marked = o.walk.counters.marked := by
        simp [Walk.addRoot, Walk.enqueue_eq]
      simpa [perform, hroot] using hlength
    | walk inWaves =>
      cases inWaves with
      | true => exact absurd rfl hc
      | false =>
        have hdrain := g.length_asked_drain (g.traced.performAll level ([], s) cs).walk
          (g.traced.performAll level ([], s) cs).state
        simp only [perform, walk, Bool.false_eq_true, if_false]
        omega

/-- The account of the nodes whose edges are asked for, over any sequence of roots and walks. From
any point within a walk on, nobody is asked who is marked by then. As long as there are no waves,
the account has an entry for each marked node and for each walk that failed. A walk in waves that
does not fail asks those that it marks, each once. Each wave of one that fails or not asks the
distinct unmarked nodes of its queue, each once and nobody else, and even if its marks use up the
answers there is one for each of them. -/
theorem asked_as_needed (level : TrackingLevel) (s : σ) :
    let run := g.traced.performAll level ([], s)
    (∀ cs, g.performAll level s cs = (run cs).map Prod.snd) ∧
    (∀ before inWaves k after,
      let point := position (g.traced.pops inWaves k (.start (run before).walk (run before).state))
      ∃ ns, (run (before ++ .walk inWaves :: after)).state.1 = point.2.1 ++ ns ∧
        ∀ n ∈ ns, n ∉ point.1.marked) ∧
    (∀ cs, .walk true ∉ cs →
      (run cs).state.1.length = (run cs).walk.counters.marked + g.failedWalks level s cs) ∧
    ∀ before,
      let ended := run (before ++ [.walk true])
      (ended.error = none → ∃ ns, ns.Nodup ∧ ended.state.1 = (run before).state.1 ++ ns ∧
        ended.walk.marked = (run before).walk.marked ++ ns) ∧
      ∃ vs, g.traced.Waves (run before).walk (run before).state vs ended ∧
        ∀ v ∈ vs, v.1.waveNodes.Nodup ∧
          (∀ n, n ∈ v.1.waveNodes ↔ n ∉ v.1.marked ∧ ∃ p ∈ v.1.pending, p.node = n) ∧
          (g.traced.wave v.1 v.2).state.1 = v.2.1 ++ v.1.waveNodes ∧
          g.traced.waveOnce v.1 v.2 = some (g.traced.wave v.1 v.2) := by
  intro run
  refine ⟨fun cs => g.traced_over.performAll level ([], s) cs, fun before inWaves k after => ?_,
    g.length_asked level s, fun before => ⟨fun herror => ?_, ?_⟩⟩
  · have hrun : run (before ++ .walk inWaves :: after) = after.foldl g.traced.perform
        (g.traced.walk inWaves (run before).walk (run before).state) := by
      simp [run, performAll, perform]
    rw [hrun]
    exact ((g.position_spares inWaves k (run before).walk (run before).state).trans
      (g.commands_spares _ after)).fresh
  · simp only [run, performAll_concat] at herror ⊢
    exact g.asked_of_ok true herror
  · obtain ⟨vs, hvs⟩ := g.traced.exists_waves (run before).walk (run before).state
    refine ⟨vs, ?_, fun v _ => ⟨nodup_unmarkedIn _ _, fun n => mem_waveNodes,
      g.asked_wave v.1 v.2, g.traced.waveOnce_eq v.1 v.2⟩⟩
    simp only [run, performAll_concat]
    exact hvs

/-- Node 2 fails, one by one before anybody asks about 3, and in waves together with 1 and 3. When
the walk goes on one by one, 2 is asked again and 1 is not. -/
theorem asked_as_needed_stalling :
    let run := FixedGraph.stalling.toGraph.traced.performAll .first ([], ())
    let cs : List Command := [.root (.small 0) "main", .walk false, .walk false]
    let ds : List Command := [.root (.small 0) "main", .walk true]
    .walk true ∉ cs ∧ (run cs).state.1.map (·.index) = [0, 1, 2, 2] ∧
    FixedGraph.stalling.toGraph.failedWalks .first () cs = 2 ∧
    (run cs).walk.counters.marked = 2 ∧
    (run ds).error.isSome ∧ (run ds).state.1.map (·.index) = [0, 1, 2, 3] ∧
    ∃ ns, (run (ds ++ [.walk false])).state.1 = (run ds).state.1 ++ ns ∧
      ∀ n ∈ ns, n ∉ (run ds).walk.marked := by
  have h := asked_as_needed FixedGraph.stalling.toGraph .first ()
  have hasked : (FixedGraph.stalling.toGraph.traced.performAll .first ([], ())
      [.root (.small 0) "main", .walk false, .walk false]).state.1.map (·.index) =
      [0, 1, 2, 2] := by cbv
  have hmarked : (FixedGraph.stalling.toGraph.traced.performAll .first ([], ())
      [.root (.small 0) "main", .walk false, .walk false]).walk.counters.marked = 2 := by cbv
  have hlength := h.2.2.1 [.root (.small 0) "main", .walk false, .walk false] (by decide)
  rw [← List.length_map (·.index), hasked, hmarked] at hlength
  exact ⟨by decide, hasked, (Nat.add_left_cancel hlength).symm, hmarked, by cbv, by cbv,
    h.2.1 [.root (.small 0) "main", .walk true] false 0 []⟩

end Graph

end AheadOfTime
