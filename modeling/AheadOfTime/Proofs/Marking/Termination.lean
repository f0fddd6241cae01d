import AheadOfTime.Proofs.Marking.Closure
import AheadOfTime.Proofs.Marking.Pops

/-! Walks come to an end. That is so without regard to how many handles there are: it is enough that
all answers stay inside some finite set of nodes, whatever state they depend on. A turn either marks
one more node of the set, or marks none and shortens the queue, or it is the last. -/

namespace AheadOfTime

/-- What a turn does, up to the count of waves, to a walk whose queue holds what is taken out: it
ends the walk, drops the next mark or makes it with an answer about its node. -/
inductive Turn {σ ε : Type} (A : NodeId → Dependencies → Prop) (w : Walk) :
    Outcome σ ε ⊕ Stage σ ε → Prop where
  | through {o} (hw : w.pending = []) (ho : o.walk.apartFromWaves = w.apartFromWaves)
      (he : o.error = none) : Turn A w (.inl o)
  | fail {o p rest} (hw : w.pending = p :: rest) (hp : p.node ∉ w.marked)
      (ho : o.walk.apartFromWaves = w.apartFromWaves) (he : o.error ≠ none) : Turn A w (.inl o)
  | skip {p rest y} (hw : w.pending = p :: rest) (hp : p.node ∈ w.marked)
      (hy : y.rejoined.apartFromWaves = { w with pending := rest }.skip.apartFromWaves) :
      Turn A w (.inr y)
  | mark {p rest deps y} (hw : w.pending = p :: rest) (hp : p.node ∉ w.marked)
      (ha : A p.node deps)
      (hy : y.rejoined.apartFromWaves = ({ w with pending := rest }.mark p deps).apartFromWaves) :
      Turn A w (.inr y)

namespace Graph

variable {σ ε : Type} (g : Graph σ ε) {I : σ → Prop}

/-- An answer that the graph gives in some state of a kind. -/
def Told (I : σ → Prop) (n : NodeId) (a : Except ε Dependencies) : Prop :=
  ∃ s, I s ∧ (g.query n s).1 = a

/-- The state is of the kind, and all answers in hand were given in such states. -/
structure Informed (I : σ → Prop) (x : Stage σ ε) : Prop where
  state : I x.state
  answers : ∀ a ∈ x.answers, g.Told I a.1 a.2

variable {g} {x y : Stage σ ε}

theorem answers_told (hI : g.Keeps I) : g.Answers I fun _ => g.Told I where
  keeps := hI
  gives {s} hs _ := ⟨s, hs, rfl⟩
  lasts _ ha _ := ha

theorem Informed.start {w : Walk} {s : σ} (hs : I s) : g.Informed I (.start w s) :=
  ⟨hs, fun _ ha => nomatch ha⟩

theorem Informed.refill (hI : g.Keeps I) (h : g.Informed I x) (inWaves : Bool) :
    g.Informed I (g.refill inWaves x) := by
  rcases g.refill_cases inWaves x with ⟨-, hx⟩ | ⟨p, rest, -, -, -, hx⟩ | ⟨-, -, -, hx⟩ <;> rw [hx]
  · exact h
  · exact ⟨h.state, fun _ ha => nomatch ha⟩
  · exact ⟨queryAll_keeps hI _ h.state, fun _ => (answers_told hI).given_of_mem_queryAll h.state⟩

theorem Informed.pop (hI : g.Keeps I) (h : g.Informed I x) {inWaves : Bool}
    (hy : g.pop inWaves x = .inr y) : g.Informed I y := by
  have hinformed := h.refill hI inWaves
  have hpopped := g.popped inWaves x
  rw [hy] at hpopped
  cases hpopped with
  | skip hv hp => exact ⟨hinformed.state, hinformed.answers⟩
  | @mark p rest deps s' hv hp ha =>
    refine ⟨?_, hinformed.answers⟩
    have hstate := answerFor_keeps hI (g.refill inWaves x).answers p.node hinformed.state
    rwa [ha] at hstate

theorem apartFromWaves_refill (inWaves : Bool) (x : Stage σ ε) :
    (g.refill inWaves x).rejoined.apartFromWaves = x.rejoined.apartFromWaves := by
  rw [refill_rejoined]
  split
  · exact Walk.apartFromWaves_countWave _
  · rfl

theorem Informed.turn (hI : g.Keeps I) (h : g.Informed I x) (inWaves : Bool) :
    Turn (fun n deps => g.Told I n (.ok deps)) x.rejoined (g.pop inWaves x) := by
  have hinformed := h.refill hI inWaves
  have hpopped := g.popped inWaves x
  have happart := g.apartFromWaves_refill inWaves x
  generalize g.pop inWaves x = result at hpopped ⊢
  generalize g.refill inWaves x = v at hinformed hpopped happart
  generalize x.rejoined = w at happart ⊢
  obtain ⟨u, s, wave, answers⟩ := v
  have hmarked := congrArg Walk.marked happart
  have hpending := congrArg Walk.pending happart
  change u.marked = w.marked at hmarked
  change wave ++ u.pending = w.pending at hpending
  have hgiven (n : NodeId) : g.Told I n (g.answerFor answers n s).1 :=
    (answers_told hI).given_answerFor hinformed.state hinformed.answers n
  cases hpopped with
  | through hv hw =>
    cases hv
    exact .through (hpending.symm.trans hw) happart rfl
  | @skip p rest hv hp =>
    cases hv
    exact .skip hpending.symm (hmarked ▸ hp)
      (congrArg (fun v : Walk => { v with pending := rest ++ u.pending }.skip) happart)
  | @fail p rest cause s' hv hp ha =>
    cases hv
    exact .fail hpending.symm (hmarked ▸ hp) happart (Option.some_ne_none _)
  | @mark p rest deps s' hv hp ha =>
    cases hv
    have htold := hgiven p.node
    rw [ha] at htold
    refine .mark hpending.symm (hmarked ▸ hp) htold ?_
    rw [Stage.rejoined, ← Walk.putBack_mark, Walk.apartFromWaves_mark, Walk.apartFromWaves_mark]
    exact congrArg (fun v : Walk => { v with pending := rest ++ u.pending }.mark p deps) happart

end Graph

/-- The nodes of a set that a walk has yet to mark. -/
def Walk.unmarkedOf (S : Finset NodeId) (w : Walk) : Finset NodeId := S.filter (· ∉ w.marked)

theorem Walk.unmarkedOf_lt {S : Finset NodeId} {v w : Walk} {n : NodeId} (hn : n ∈ S)
    (hw : n ∉ w.marked) (hv : v.marked = w.marked ++ [n]) :
    (v.unmarkedOf S).card < (w.unmarkedOf S).card := by
  refine Finset.card_lt_card ⟨fun m hm => ?_, fun hsub => ?_⟩
  · simp only [unmarkedOf, Finset.mem_filter, hv, List.mem_append, not_or] at hm ⊢
    exact ⟨hm.1, hm.2.1⟩
  · have hnode : n ∈ w.unmarkedOf S := Finset.mem_filter.mpr ⟨hn, hw⟩
    simpa [unmarkedOf, hv] using hsub hnode

/-- Every mark that making a mark asks for stands for an edge that is counted. -/
theorem Walk.pending_mark_le (w : Walk) (p : Candidate) (deps : Dependencies) :
    (w.mark p deps).pending.length + w.counters.edges + w.counters.activations ≤
      w.pending.length + (w.mark p deps).counters.edges + (w.mark p deps).counters.activations := by
  have hfilter := List.length_filter_le (fun q : Candidate => decide (q.node ∉ w.marked ++ [p.node]))
    ((w.traversed p deps).map RecordedEdge.candidate)
  have hlength : (w.traversed p deps).length = (w.deferred.countP (·.condition = p.node)) +
      deps.edges.length + (fired (w.marked ++ [p.node]) p.node deps.conditional).length := by
    simp [traversed, List.countP_eq_length_filter, Nat.add_assoc]
  rw [List.length_map, hlength] at hfilter
  rw [mark_eq]
  simp only [List.length_append]
  omega

/-- A turn that goes on has taken one mark out, and made it or counted it as a revisit. What it
asked for is paid for by edges. -/
structure Walk.Took (w v : Walk) : Prop where
  marked : w.marked <+: v.marked
  taken : 1 + w.marked.length + w.counters.revisits = v.marked.length + v.counters.revisits
  asked : 1 + v.pending.length + w.counters.edges + w.counters.activations ≤
    w.pending.length + v.counters.edges + v.counters.activations

namespace Walk

variable {A : NodeId → Dependencies → Prop} {S : Finset NodeId} {w v v' : Walk} {p : Candidate}
  {rest : List Candidate}

theorem Took.of_apart (h : w.Took v) (hv : v'.apartFromWaves = v.apartFromWaves) : w.Took v' := by
  obtain ⟨marked, pending, deferred, ⟨⟩, record⟩ := v
  obtain ⟨marked', pending', deferred', ⟨⟩, record'⟩ := v'
  simp only [apartFromWaves, Counters.apartFromWaves, mk.injEq, Counters.mk.injEq] at hv
  obtain ⟨rfl, rfl, -, ⟨-, rfl, rfl, rfl, -⟩, -⟩ := hv
  exact ⟨h.marked, h.taken, h.asked⟩

theorem took_skip (hw : w.pending = p :: rest) : w.Took { w with pending := rest }.skip := by
  refine ⟨List.prefix_refl _, ?_, ?_⟩
  · simp only [skip]
    omega
  · simp only [skip, hw, List.length_cons]
    omega

theorem took_mark (hw : w.pending = p :: rest) (deps : Dependencies) :
    w.Took ({ w with pending := rest }.mark p deps) := by
  have hasked := ({ w with pending := rest } : Walk).pending_mark_le p deps
  refine ⟨?_, ?_, ?_⟩
  · rw [mark_marked]
    exact List.prefix_append _ _
  · simp only [mark_eq, List.length_append, List.length_singleton]
    omega
  · simp only [hw, List.length_cons] at hasked ⊢
    omega

theorem Within.of_apart (h : w.Within S) (hv : v.apartFromWaves = w.apartFromWaves) :
    v.Within S := by
  obtain ⟨marked, pending, deferred, counters, record⟩ := w
  obtain ⟨marked', pending', deferred', counters', record'⟩ := v
  simp only [apartFromWaves, mk.injEq] at hv
  obtain ⟨rfl, rfl, rfl, -, -⟩ := hv
  exact ⟨h.marked, h.pending, h.deferred⟩

end Walk

/-- The last turn of a walk leaves it as it is. -/
theorem Turn.apartFromWaves_eq {σ ε : Type} {A : NodeId → Dependencies → Prop} {w : Walk}
    {o : Outcome σ ε} (h : Turn A w (.inl o)) :
    o.walk.apartFromWaves = w.apartFromWaves := by
  cases h with
  | through hw ho he => exact ho
  | fail hw hp ho he => exact ho

/-- A turn that goes on has marked one more node of a closed set, or as many and there is less in
the queue. -/
theorem Turn.goesOn {σ ε : Type} {A : NodeId → Dependencies → Prop} {S : Finset NodeId} {w : Walk}
    {y : Stage σ ε} (h : Turn A w (.inr y)) (hS : ClosedUnder A S)
    (hw : w.Within S) :
    w.Took y.rejoined ∧ y.rejoined.Within S ∧ (w.marked.Nodup → y.rejoined.marked.Nodup) ∧
      Prod.Lex (· < ·) (· < ·) ((y.rejoined.unmarkedOf S).card, y.rejoined.pending.length)
        ((w.unmarkedOf S).card, w.pending.length) := by
  cases h with
  | @skip p rest _ hpending hp hy =>
    have hmove : Walk.Move A w { w with pending := rest }.skip := .skip hpending hp
    have hmarked := congrArg Walk.marked hy
    have hqueue := congrArg Walk.pending hy
    change y.rejoined.marked = w.marked at hmarked
    change y.rejoined.pending = rest at hqueue
    refine ⟨(Walk.took_skip hpending).of_apart hy, (hw.move hS hmove).of_apart hy,
      by rw [hmarked]; exact id, ?_⟩
    rw [Walk.unmarkedOf, hmarked, hqueue, hpending]
    exact .right _ (Nat.lt_succ_self _)
  | @mark p rest deps _ hpending hp ha hy =>
    have hmove : Walk.Move A w ({ w with pending := rest }.mark p deps) := .mark hpending hp ha
    have hmarked := congrArg Walk.marked hy
    change y.rejoined.marked = ({ w with pending := rest }.mark p deps).marked at hmarked
    rw [Walk.mark_marked] at hmarked
    refine ⟨(Walk.took_mark hpending deps).of_apart hy, (hw.move hS hmove).of_apart hy, ?_, ?_⟩
    · rw [hmarked]
      exact fun hnodup => hnodup.append (List.nodup_singleton _) (by simpa using hp)
    · exact .left _ _ (Walk.unmarkedOf_lt (hw.pending p (hpending ▸ List.mem_cons_self)) hp hmarked)

/-- A walk ends after some turns, each of which drops a mark, makes one, or is the last. It marks
nodes of a set alone, none twice. All marks that it takes out were made or counted as revisits, and
all were in the queue or asked for along an edge. -/
structure Graph.Ends {σ ε : Type} (g : Graph σ ε) (A : NodeId → Dependencies → Prop)
    (S : Finset NodeId) (inWaves : Bool) (x : Stage σ ε) (k : Nat) (o : Outcome σ ε) : Prop where
  pops : g.pops inWaves k x = .inl o
  turns : ∀ i < k, ∃ y, g.pops inWaves i x = .inr y ∧ Turn A y.rejoined (g.pop inWaves y)
  marked : x.rejoined.marked <+: o.walk.marked
  nodup : x.rejoined.marked.Nodup → o.walk.marked.Nodup
  within : ∀ n ∈ o.walk.marked, n ∈ S
  taken : k + x.rejoined.marked.length + x.rejoined.counters.revisits =
    o.walk.marked.length + o.walk.counters.revisits + 1
  asked : k + o.walk.pending.length + x.rejoined.counters.edges + x.rejoined.counters.activations ≤
    x.rejoined.pending.length + o.walk.counters.edges + o.walk.counters.activations + 1

namespace Graph

variable {σ ε : Type} {g : Graph σ ε} {A : NodeId → Dependencies → Prop} {S : Finset NodeId}
  {inWaves : Bool} {x y : Stage σ ε} {k : Nat} {o : Outcome σ ε}

/-- The last turn. -/
theorem ends_one (hx : x.rejoined.Within S) (hpop : g.pop inWaves x = .inl o)
    (hturn : Turn A x.rejoined (g.pop inWaves x)) : g.Ends A S inWaves x 1 o := by
  have hsame : o.walk.apartFromWaves = x.rejoined.apartFromWaves := by
    rw [hpop] at hturn
    exact hturn.apartFromWaves_eq
  have hturns : ∀ i < 1, ∃ y, g.pops inWaves i x = .inr y ∧
      Turn A y.rejoined (g.pop inWaves y) := by
    intro i hi
    obtain rfl : i = 0 := by omega
    exact ⟨x, rfl, hturn⟩
  have hmarked := congrArg Walk.marked hsame
  have hpending := congrArg Walk.pending hsame
  have hcounters := congrArg Walk.counters hsame
  change o.walk.marked = x.rejoined.marked at hmarked
  change o.walk.pending = x.rejoined.pending at hpending
  simp only [Walk.apartFromWaves, Counters.apartFromWaves, Counters.mk.injEq] at hcounters
  refine ⟨g.pops_of_ended hpop 0, hturns, ?_, ?_, ?_, ?_, ?_⟩
  · rw [hmarked]
  · rw [hmarked]
    exact id
  · rw [hmarked]
    exact hx.marked
  · rw [hmarked]
    omega
  · rw [hpending]
    omega

/-- One turn and then the others. -/
theorem Ends.cons (hpop : g.pop inWaves x = .inr y) (hturn : Turn A x.rejoined (g.pop inWaves x))
    (htook : x.rejoined.Took y.rejoined)
    (hnodup : x.rejoined.marked.Nodup → y.rejoined.marked.Nodup) (h : g.Ends A S inWaves y k o) :
    g.Ends A S inWaves x (k + 1) o := by
  have hturns : ∀ i < k + 1, ∃ y, g.pops inWaves i x = .inr y ∧
      Turn A y.rejoined (g.pop inWaves y) := by
    rintro (_ | i) hi
    · exact ⟨x, rfl, hturn⟩
    · rw [g.pops_of_pop hpop]
      exact h.turns i (by omega)
  have htaken := h.taken
  have hasked := h.asked
  refine ⟨(g.pops_of_pop hpop k).trans h.pops, hturns, htook.marked.trans h.marked,
    h.nodup ∘ hnodup, h.within, ?_, ?_⟩
  · have := htook.taken
    omega
  · have := htook.asked
    omega

theorem exists_ends {I : σ → Prop} (hI : g.Keeps I)
    (hS : ClosedUnder (fun n deps => g.Told I n (.ok deps)) S) (x : Stage σ ε) (hx : g.Informed I x)
    (hwithin : x.rejoined.Within S) :
    ∃ k o, g.Ends (fun n deps => g.Told I n (.ok deps)) S inWaves x k o := by
  have hturn := hx.turn hI inWaves
  cases hpop : g.pop inWaves x with
  | inl o => exact ⟨1, o, ends_one hwithin hpop hturn⟩
  | inr y =>
    have hgoes := hturn
    rw [hpop] at hgoes
    obtain ⟨htook, hwithin', hnodup, hless⟩ := hgoes.goesOn hS hwithin
    obtain ⟨k, o, h⟩ := exists_ends hI hS y (hx.pop hI hpop) hwithin'
    exact ⟨k + 1, o, h.cons hpop hturn htook hnodup⟩
termination_by ((x.rejoined.unmarkedOf S).card, x.rejoined.pending.length)
decreasing_by exact hless

/-- A walk over a graph whose answers stay inside a finite set of nodes, in whatever states of a
kind that questions lead to, comes to an end after finitely many turns. -/
theorem walk_ends {I : σ → Prop} (hI : g.Keeps I)
    (hS : ClosedUnder (fun n deps => g.Told I n (.ok deps)) S) {w : Walk} {s : σ} (hs : I s)
    (hwithin : w.Within S) (inWaves : Bool) :
    ∃ k, g.Ends (fun n deps => g.Told I n (.ok deps)) S inWaves (.start w s) k
      (g.walk inWaves w s) := by
  obtain ⟨k, o, h⟩ := exists_ends hI hS (.start w s) (.start hs) hwithin
  exact ⟨k, g.walk_of_pops h.pops ▸ h⟩

end Graph

theorem finite_nodeIds : (Set.univ : Set NodeId).Finite := by
  have hinjective : Function.Injective
      fun n : NodeId => (⟨n.index, n.index_lt⟩ : Fin 0x100000000) := by
    rintro ⟨i, hi⟩ ⟨j, hj⟩ h
    simpa using h
  have := Finite.of_injective _ hinjective
  exact Set.finite_univ

/-- Any walk comes to an end, as there are only so many handles. -/
theorem Graph.exists_pops {σ ε : Type} (g : Graph σ ε) (inWaves : Bool) (w : Walk) (s : σ) :
    ∃ k, g.pops inWaves k (.start w s) = .inl (g.walk inWaves w s) := by
  have hall (n : NodeId) : n ∈ finite_nodeIds.toFinset := by simp
  obtain ⟨k, h⟩ := walk_ends (g := g) (I := fun _ => True) (S := finite_nodeIds.toFinset)
    (fun _ _ _ => trivial) ⟨fun _ _ _ _ => hall _, fun _ _ _ _ _ => hall _⟩ trivial
    ⟨fun _ _ => hall _, fun _ _ => hall _, fun _ _ _ => hall _⟩ inWaves
  exact ⟨k, h.pops⟩

end AheadOfTime
