import AheadOfTime.Marking.Walk

/-! The walk that takes pending marks one by one. A node is asked for its dependencies only when it
is about to be marked, and a question that fails leaves its mark at the front of the queue. -/

namespace AheadOfTime.Graph

variable {σ ε : Type}

/-- Marks until nothing is pending or a question fails. -/
def drain (g : Graph σ ε) (w : Walk) (s : σ) : Outcome σ ε :=
  match _hw : w.pending with
  | [] => ⟨w, s, none⟩
  | p :: rest =>
    if _hp : p.node ∈ w.marked then drain g { w with pending := rest }.skip s
    else
      match g.query p.node s with
      | (.error cause, s) => ⟨w, s, some (w.failure (g.name s) p cause)⟩
      | (.ok deps, s) => drain g ({ w with pending := rest }.mark p deps) s
termination_by (NodeId.unlisted w.marked, w.pending.length)
decreasing_by
  · right; simp [Walk.skip, _hw]
  · left; simpa using NodeId.unlisted_lt _hp

theorem drain_nil (g : Graph σ ε) {w : Walk} (hw : w.pending = []) (s : σ) :
    g.drain w s = ⟨w, s, none⟩ := by
  rw [drain]
  split
  · rfl
  · simp_all

theorem drain_skip (g : Graph σ ε) {w : Walk} {p : Candidate} {rest : List Candidate}
    (hw : w.pending = p :: rest) (hp : p.node ∈ w.marked) (s : σ) :
    g.drain w s = g.drain { w with pending := rest }.skip s := by
  rw [drain]
  split <;> simp_all

theorem drain_mark (g : Graph σ ε) {w : Walk} {p : Candidate} {rest : List Candidate}
    (hw : w.pending = p :: rest) (hp : p.node ∉ w.marked) {deps : Dependencies} {s s' : σ}
    (hq : g.query p.node s = (.ok deps, s')) :
    g.drain w s = g.drain ({ w with pending := rest }.mark p deps) s' := by
  rw [drain]
  split <;> simp_all

theorem drain_fail (g : Graph σ ε) {w : Walk} {p : Candidate} {rest : List Candidate}
    (hw : w.pending = p :: rest) (hp : p.node ∉ w.marked) {cause : ε} {s s' : σ}
    (hq : g.query p.node s = (.error cause, s')) :
    g.drain w s = ⟨w, s', some (w.failure (g.name s') p cause)⟩ := by
  rw [drain]
  split <;> simp_all

theorem pending_of_drain (g : Graph σ ε) {w : Walk} {s : σ} (h : (g.drain w s).error = none) :
    (g.drain w s).walk.pending = [] := by
  fun_induction drain g w s with
  | case1 w s hw => exact hw
  | case2 w s p rest hw hp ih => exact ih h
  | case3 w s p rest hw hp cause s' hq => cases h
  | case4 w s p rest hw hp deps s' hq ih => exact ih h

/-- A walk from a fresh state with the given roots. -/
def walkFrom (g : Graph σ ε) (level : TrackingLevel) (roots : List (NodeId × String)) (s : σ) :
    Outcome σ ε :=
  g.drain (roots.foldl (fun w r => w.addRoot r.1 r.2) (.start level)) s

end AheadOfTime.Graph
