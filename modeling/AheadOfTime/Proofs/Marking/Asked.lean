import AheadOfTime.Marking.Command
import AheadOfTime.Proofs.Marking.Waves

/-! What a walk asks. Of either kind, it asks each node at most once and none that is marked; what
it was asked in this order is all that its state went through. If nothing fails it was answered
about every node that it asked, and these are the nodes that it marked, in the same order. A wave
asks ahead of marking, so one that fails may have asked nodes that stay unmarked. -/

namespace AheadOfTime.Graph

variable {σ ε : Type} {g : Graph σ ε} {w v : Walk} {s : σ} {ns ms : List NodeId}

theorem queryAll_append (ns ms : List NodeId) (s : σ) :
    g.queryAll (ns ++ ms) s =
      ((g.queryAll ns s).1 ++ (g.queryAll ms (g.queryAll ns s).2).1,
        (g.queryAll ms (g.queryAll ns s).2).2) := by
  induction ns generalizing s with
  | nil => rfl
  | cons n ns ih => simp only [List.cons_append, queryAll, ih]

/-- The nodes that are asked on the way from a walk and a state to an outcome. -/
structure Asks (g : Graph σ ε) (w : Walk) (s : σ) (o : Outcome σ ε) (ns : List NodeId) : Prop where
  nodup : ns.Nodup
  unmarked : ∀ n ∈ ns, n ∉ w.marked
  state : o.state = (g.queryAll ns s).2
  marked : o.error = none → o.walk.marked = w.marked ++ ns
  answered : o.error = none → ∀ a ∈ (g.queryAll ns s).1, ∃ deps, a.2 = .ok deps

theorem Asks.nothing (hv : v.marked = w.marked) (s : σ) : g.Asks w s ⟨v, s, none⟩ [] where
  nodup := List.nodup_nil
  unmarked := by simp
  state := rfl
  marked _ := by rw [hv, List.append_nil]
  answered _ := by simp [queryAll]

/-- What is asked does not depend on what is pending. -/
theorem Asks.of_marked_eq {o : Outcome σ ε} (h : g.Asks v s o ns) (hv : v.marked = w.marked) :
    g.Asks w s o ns where
  nodup := h.nodup
  unmarked := hv ▸ h.unmarked
  state := h.state
  marked := hv ▸ h.marked
  answered := h.answered

theorem Asks.append {o o' : Outcome σ ε} (h : g.Asks w s o ns) (herror : o.error = none)
    (h' : g.Asks o.walk o.state o' ms) : g.Asks w s o' (ns ++ ms) := by
  have hmarked := h.marked herror
  have hunmarked := h'.unmarked
  rw [hmarked] at hunmarked
  refine ⟨?_, fun n hn => ?_, ?_, fun he => ?_, fun he => ?_⟩
  · refine List.nodup_append.mpr ⟨h.nodup, h'.nodup, fun n hn m hm hnm => ?_⟩
    exact hunmarked m hm (List.mem_append_right _ (hnm ▸ hn))
  · rcases List.mem_append.mp hn with hn | hn
    · exact h.unmarked n hn
    · exact fun hw => hunmarked n hn (List.mem_append_left _ hw)
  · rw [queryAll_append, ← h.state, h'.state]
  · rw [h'.marked he, hmarked, List.append_assoc]
  · rw [queryAll_append, ← h.state]
    exact List.forall_mem_append.mpr ⟨h.answered herror, h'.answered he⟩

theorem Asks.mark {p : Candidate} {deps : Dependencies} {s₁ : σ} (hp : p.node ∉ w.marked)
    (hq : g.query p.node s = (.ok deps, s₁)) (hv : v.marked = w.marked ++ [p.node]) :
    g.Asks w s ⟨v, s₁, none⟩ [p.node] where
  nodup := List.nodup_singleton _
  unmarked := by simpa using hp
  state := by simp [queryAll, hq]
  marked _ := hv
  answered _ := by simp [queryAll, hq]

/-- Of a walk that failed only the questions are told. -/
theorem Asks.of_error {o : Outcome σ ε} {e : WalkError ε} (he : o.error = some e) (hns : ns.Nodup)
    (hunmarked : ∀ n ∈ ns, n ∉ w.marked) (hstate : o.state = (g.queryAll ns s).2) :
    g.Asks w s o ns where
  nodup := hns
  unmarked := hunmarked
  state := hstate
  marked hnone := by rw [he] at hnone; cases hnone
  answered hnone := by rw [he] at hnone; cases hnone

theorem drain_asks (w : Walk) (s : σ) : ∃ ns, g.Asks w s (g.drain w s) ns := by
  fun_induction drain g w s with
  | case1 w s hw => exact ⟨[], .nothing rfl s⟩
  | case2 w s p rest hw hp ih =>
    obtain ⟨ns, hns⟩ := ih
    exact ⟨ns, hns.of_marked_eq rfl⟩
  | case3 w s p rest hw hp cause s' hq =>
    have hstate : s' = (g.queryAll [p.node] s).2 := by simp [queryAll, hq]
    exact ⟨[p.node], .of_error rfl (List.nodup_singleton _) (by simpa using hp) hstate⟩
  | case4 w s p rest hw hp deps s' hq ih =>
    obtain ⟨ns, hns⟩ := ih
    have hmarked : ({ w with pending := rest }.mark p deps).marked = w.marked ++ [p.node] :=
      Walk.mark_marked _ p deps
    exact ⟨[p.node] ++ ns, (Asks.mark hp hq hmarked).append rfl hns⟩

/-- The answers of a wave are there before the first of them is used. -/
theorem applyWave_asks (answers : List (NodeId × Except ε Dependencies)) (ps : List Candidate)
    (w : Walk) (s : σ)
    (hanswers : ∀ n ∈ unmarkedIn w.marked ps,
      answers.lookup n = (g.queryAll (unmarkedIn w.marked ps) s).1.lookup n) :
    g.Asks w s (g.applyWave answers ps w (g.queryAll (unmarkedIn w.marked ps) s).2)
      (unmarkedIn w.marked ps) := by
  induction ps generalizing w s with
  | nil => exact .nothing rfl s
  | cons p ps ih =>
    by_cases hp : p.node ∈ w.marked
    · rw [unmarkedIn_cons_of_mem hp] at hanswers ⊢
      rw [applyWave, if_pos hp]
      exact (ih w.skip s hanswers).of_marked_eq rfl
    · rw [unmarkedIn_cons_of_not_mem hp] at hanswers ⊢
      rcases hq : g.query p.node s with ⟨answer, s₁⟩
      have hanswer : answers.lookup p.node = some answer := by
        rw [hanswers _ List.mem_cons_self, g.queryAll_cons hq]
        simp
      cases answer with
      | error cause =>
        rw [applyWave, if_neg hp, answerFor, hanswer, ← unmarkedIn_cons_of_not_mem hp]
        exact .of_error rfl (nodup_unmarkedIn _ _) (fun n hn => not_mem_of_mem_unmarkedIn hn) rfl
      | ok deps =>
        have hmarked : (w.mark p deps).marked = w.marked ++ [p.node] := Walk.mark_marked w p deps
        have hrest := ih (w.mark p deps) s₁
        rw [hmarked] at hrest
        rw [g.queryAll_cons hq, applyWave, if_neg hp, answerFor, hanswer]
        refine (Asks.mark hp hq hmarked).append rfl (hrest fun n hn => ?_)
        rw [hanswers n (List.mem_cons_of_mem _ hn), g.queryAll_cons hq, List.lookup_cons,
          beq_false_of_ne (ne_of_mem_unmarkedIn hn)]

/-- A wave asks the distinct nodes of the queue that are not marked. -/
theorem wave_asks (w : Walk) (s : σ) : g.Asks w s (g.wave w s) w.waveNodes :=
  (applyWave_asks _ w.pending w.beginWave s fun _ _ => rfl).of_marked_eq rfl

theorem drainWaves_asks (w : Walk) (s : σ) : ∃ ns, g.Asks w s (g.drainWaves w s) ns := by
  fun_induction drainWaves g w s with
  | case1 w s hw => exact ⟨[], .nothing rfl s⟩
  | case2 w s hw w' s' ho ih =>
    obtain ⟨ns, hns⟩ := ih
    have hwave := g.wave_asks w s
    rw [ho] at hwave
    exact ⟨w.waveNodes ++ ns, hwave.append rfl hns⟩
  | case3 w s hw hfail => exact ⟨w.waveNodes, g.wave_asks w s⟩

theorem walk_asks (inWaves : Bool) (w : Walk) (s : σ) :
    ∃ ns, g.Asks w s (g.walk inWaves w s) ns := by
  cases inWaves with
  | false => exact drain_asks w s
  | true => exact drainWaves_asks w s

end AheadOfTime.Graph
