import AheadOfTime.Proofs.Marking.Termination

/-! Graphs that keep an account of what they are asked, beside their state. A walk over such a graph
is the walk over the graph itself (`Over.walk`), so what the account says of the one holds of the
other. -/

namespace AheadOfTime

variable {σ τ ε : Type}

def Outcome.map (f : τ → σ) (o : Outcome τ ε) : Outcome σ ε := ⟨o.walk, f o.state, o.error⟩

def Stage.map (f : τ → σ) (x : Stage τ ε) : Stage σ ε := ⟨x.walk, f x.state, x.wave, x.answers⟩

namespace Graph

/-- A graph gives the answers of another one, of whose state its own holds more. -/
structure Over (g' : Graph τ ε) (g : Graph σ ε) (f : τ → σ) : Prop where
  name : ∀ t, g'.name t = g.name (f t)
  query : ∀ n t, g.query n (f t) = ((g'.query n t).1, f (g'.query n t).2)

namespace Over

variable {g' : Graph τ ε} {g : Graph σ ε} {f : τ → σ} (h : g'.Over g f)
include h

theorem queryAll (ns : List NodeId) (t : τ) :
    g.queryAll ns (f t) = ((g'.queryAll ns t).1, f (g'.queryAll ns t).2) := by
  induction ns generalizing t with
  | nil => rfl
  | cons n ns ih => simp only [Graph.queryAll, h.query, ih]

theorem answerFor (answers : List (NodeId × Except ε Dependencies)) (n : NodeId) (t : τ) :
    g.answerFor answers n (f t) =
      ((g'.answerFor answers n t).1, f (g'.answerFor answers n t).2) := by
  unfold Graph.answerFor
  split
  · rfl
  · exact h.query n t

theorem refill (inWaves : Bool) (x : Stage τ ε) :
    g.refill inWaves (x.map f) = (g'.refill inWaves x).map f := by
  simp only [Graph.refill, Stage.map, h.queryAll]
  split
  · split <;> rfl
  · rfl

theorem pop (inWaves : Bool) (x : Stage τ ε) :
    g.pop inWaves (x.map f) = (g'.pop inWaves x).map (Outcome.map f) (Stage.map f) := by
  unfold Graph.pop
  rw [h.refill]
  obtain ⟨w, t, wave, answers⟩ := g'.refill inWaves x
  cases wave with
  | nil => rfl
  | cons p rest =>
    have hmap : Stage.map f ⟨w, t, p :: rest, answers⟩ = ⟨w, f t, p :: rest, answers⟩ := rfl
    rw [hmap]
    dsimp only
    by_cases hp : p.node ∈ w.marked
    · rw [if_pos hp, if_pos hp]
      rfl
    · rw [if_neg hp, if_neg hp, h.answerFor]
      rcases g'.answerFor answers p.node t with ⟨cause | deps, t'⟩
      · simp only [Sum.map_inl, Outcome.map, h.name]
        rfl
      · rfl

theorem pops (inWaves : Bool) (k : Nat) (x : Stage τ ε) :
    g.pops inWaves k (x.map f) = (g'.pops inWaves k x).map (Outcome.map f) (Stage.map f) := by
  induction k generalizing x with
  | zero => rfl
  | succ k ih =>
    rw [Graph.pops, Graph.pops, h.pop]
    cases g'.pop inWaves x with
    | inl o => rfl
    | inr y => exact ih y

theorem walk (inWaves : Bool) (w : Walk) (t : τ) :
    g.walk inWaves w (f t) = (g'.walk inWaves w t).map f := by
  obtain ⟨k, hk⟩ := g'.exists_pops inWaves w t
  have hpops := h.pops inWaves k (.start w t)
  rw [hk] at hpops
  exact g.walk_of_pops hpops

theorem perform (o : Outcome τ ε) (c : Command) :
    g.perform (o.map f) c = (g'.perform o c).map f := by
  cases c with
  | root n reason => rfl
  | walk inWaves => exact h.walk inWaves o.walk o.state

end Over

end Graph

/-- Keeping an account at every turn changes nothing else. -/
theorem performTurns_over {f : τ → σ} {account : Graph σ ε → Graph τ ε}
    (h : ∀ g, (account g).Over g f) (level : TrackingLevel) (t : τ)
    (turns : List (Graph σ ε × Command)) :
    performTurns level (f t) turns =
      (performTurns level t (turns.map fun turn => (account turn.1, turn.2))).map f := by
  induction turns using List.reverseRecOn with
  | nil => rfl
  | append_singleton turns turn ih =>
    simp only [performTurns, List.map_append, List.foldl_append] at ih ⊢
    simp only [List.map_cons, List.map_nil, List.foldl_cons, List.foldl_nil]
    rw [ih]
    exact (h turn.1).perform _ turn.2

theorem Graph.traced_over (g : Graph σ ε) : g.traced.Over g Prod.snd where
  name _ := rfl
  query n t := by
    rcases he : g.edges n t.2 with ⟨e | es, s⟩
    · simp [query, traced, he]
    · rcases hc : g.conditional n s with ⟨e | ds, s'⟩ <;> simp [query, traced, he, hc]

/-- The state of a graph, and what the graph last answered about each node. -/
structure Heard (σ : Type) where
  edges : NodeId → Option (List Edge)
  conditional : NodeId → Option (List ConditionalEdge)
  state : σ

namespace Heard

def nothing (s : σ) : Heard σ := ⟨fun _ => none, fun _ => none, s⟩

/-- The last answer about a node. -/
structure Last (h : Heard σ) (n : NodeId) (deps : Dependencies) : Prop where
  edges : h.edges n = some deps.edges
  conditional : h.conditional n = some deps.conditional

/-- The same was last answered about some nodes. -/
def AgreeOn (ns : List NodeId) (h h' : Heard σ) : Prop :=
  ∀ n ∈ ns, h'.edges n = h.edges n ∧ h'.conditional n = h.conditional n

variable {ns : List NodeId} {h h' h'' : Heard σ}

theorem AgreeOn.refl (ns : List NodeId) (h : Heard σ) : AgreeOn ns h h := fun _ _ => ⟨rfl, rfl⟩

theorem AgreeOn.trans (hab : AgreeOn ns h h') (hbc : AgreeOn ns h' h'') : AgreeOn ns h h'' :=
  fun n hn => ⟨(hbc n hn).1.trans (hab n hn).1, (hbc n hn).2.trans (hab n hn).2⟩

theorem AgreeOn.last {n : NodeId} {deps : Dependencies} (hab : AgreeOn ns h h') (hn : n ∈ ns)
    (hlast : h.Last n deps) : h'.Last n deps :=
  ⟨(hab n hn).1.trans hlast.edges, (hab n hn).2.trans hlast.conditional⟩

end Heard

namespace Graph

/-- The same graph, which also notes down its last answer about each node. -/
def heard (g : Graph σ ε) : Graph (Heard σ) ε where
  name h := g.name h.state
  edges n h :=
    ((g.edges n h.state).1, ⟨Function.update h.edges n (g.edges n h.state).1.toOption,
      h.conditional, (g.edges n h.state).2⟩)
  conditional n h :=
    ((g.conditional n h.state).1, ⟨h.edges, Function.update h.conditional n
      (g.conditional n h.state).1.toOption, (g.conditional n h.state).2⟩)

variable (g : Graph σ ε)

theorem heard_over : g.heard.Over g Heard.state where
  name _ := rfl
  query n h := by
    rcases he : g.edges n h.state with ⟨e | es, s⟩
    · simp [query, heard, he]
    · rcases hc : g.conditional n s with ⟨e | ds, s'⟩ <;> simp [query, heard, he, hc]

variable {g}

theorem last_of_query {n : NodeId} {h h' : Heard σ} {deps : Dependencies}
    (hq : g.heard.query n h = (.ok deps, h')) : h'.Last n deps := by
  rcases he : g.edges n h.state with ⟨e | es, s⟩
  · simp [query, heard, he] at hq
  · rcases hc : g.conditional n s with ⟨e | ds, s'⟩
    · simp [query, heard, he, hc] at hq
    · simp only [query, heard, he, hc, Prod.mk.injEq, Except.ok.injEq] at hq
      obtain ⟨rfl, rfl⟩ := hq
      exact ⟨Function.update_self .., Function.update_self ..⟩

/-- A question about a node leaves what was heard of the others. -/
theorem agreeOn_query {n : NodeId} {ns : List NodeId} (hn : n ∉ ns) (h : Heard σ) :
    h.AgreeOn ns (g.heard.query n h).2 := by
  intro m hm
  have hne : m ≠ n := ne_of_mem_of_not_mem hm hn
  rcases he : g.edges n h.state with ⟨e | es, s⟩
  · simp [query, heard, he, hne]
  · rcases hc : g.conditional n s with ⟨e | ds, s'⟩ <;> simp [query, heard, he, hc, hne]

end Graph

end AheadOfTime
