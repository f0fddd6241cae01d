import AheadOfTime.Proofs.Marking.Discovery
import AheadOfTime.Proofs.Marking.Observed
import AheadOfTime.Proofs.Except

/-! Why nodes were marked. The first marks of a walk form a forest: whatever it was told and
however its walks ended, each marked node was asked for by a root or along an edge that its source
led to when it was marked, the source was marked earlier, and the way back ends at a root. An edge
may wait for its condition, and a mark in the queue, across any number of moves and failures before
it becomes a reason; that all that waits is grounded is what every pop keeps (`Founded`). -/

namespace AheadOfTime

/-- What it takes for a node to be marked for a reason: it is a root, or a marked node was answered
to lead to it, at once or under a condition that is marked. -/
inductive Grounds {σ : Type} (roots : Set (NodeId × String)) (h : Heard σ) (marked : List NodeId)
    (n : NodeId) : Origin → Prop where
  | root {reason} (hn : (n, reason) ∈ roots) : Grounds roots h marked n ⟨none, reason⟩
  | edge {m es reason} (hm : m ∈ marked) (hes : h.edges m = some es)
      (hn : ⟨n, reason⟩ ∈ es) : Grounds roots h marked n ⟨some m, reason⟩
  | conditional {m es condition reason} (hm : m ∈ marked) (hes : h.conditional m = some es)
      (hn : ⟨n, condition, reason⟩ ∈ es) (hc : condition ∈ marked) :
      Grounds roots h marked n ⟨some m, reason⟩

section Grounds

variable {σ : Type} {roots roots' : Set (NodeId × String)} {h h' : Heard σ}
  {marked marked' : List NodeId} {n : NodeId} {o : Origin}

theorem Grounds.mono (hg : Grounds roots h marked n o) (hroots : roots ⊆ roots')
    (hmarked : marked ⊆ marked') (hagree : h.AgreeOn marked h') :
    Grounds roots' h' marked' n o := by
  cases hg with
  | root hn => exact .root (hroots hn)
  | edge hm hes hn => exact .edge (hmarked hm) ((hagree _ hm).1.trans hes) hn
  | conditional hm hes hn hc =>
    exact .conditional (hmarked hm) ((hagree _ hm).2.trans hes) hn (hmarked hc)

end Grounds

/-- Everything that waits, in the queue or for its condition, and everything recorded is grounded. -/
structure Founded {σ : Type} (roots : Set (NodeId × String)) (h : Heard σ) (w : Walk) : Prop where
  pending : ∀ p ∈ w.pending, Grounds roots h w.marked p.node p.origin
  deferred : ∀ d ∈ w.deferred, d.source ∈ w.marked ∧
    ∃ es, h.conditional d.source = some es ∧ ⟨d.target, d.condition, d.reason⟩ ∈ es
  record : ∃ marks, w.record = .first marks ∧ ∀ n o, marks.origin? n = some o →
    Grounds roots h w.marked n o
  answered : ∀ n ∈ w.marked, ∃ deps, h.Last n deps

namespace Founded

variable {σ : Type} {roots roots' : Set (NodeId × String)} {h h' : Heard σ} {w : Walk}
  {p : Candidate} {rest : List Candidate} {deps : Dependencies}

theorem start (roots : Set (NodeId × String)) (h : Heard σ) : Founded roots h (.start .first) :=
  ⟨by simp [Walk.start], by simp [Walk.start], ⟨.empty, rfl, fun _ _ ho => nomatch ho⟩,
    by simp [Walk.start]⟩

theorem mono (hf : Founded roots h w) (hroots : roots ⊆ roots') (hagree : h.AgreeOn w.marked h') :
    Founded roots' h' w where
  pending q hq := (hf.pending q hq).mono hroots (List.Subset.refl _) hagree
  deferred d hd := by
    obtain ⟨hm, es, hes, hd⟩ := hf.deferred d hd
    exact ⟨hm, es, (hagree _ hm).2.trans hes, hd⟩
  record := by
    obtain ⟨marks, hmarks, hgrounds⟩ := hf.record
    exact ⟨marks, hmarks, fun n o ho => (hgrounds n o ho).mono hroots (List.Subset.refl _) hagree⟩
  answered n hn := by
    obtain ⟨deps, hlast⟩ := hf.answered n hn
    exact ⟨deps, hagree.last hn hlast⟩

theorem addRoot (hf : Founded roots h w) {n : NodeId} {reason : String} (hn : (n, reason) ∈ roots) :
    Founded roots h (w.addRoot n reason) := by
  rw [Walk.addRoot, Walk.enqueue_eq]
  obtain ⟨marks, hmarks, hgrounds⟩ := hf.record
  refine ⟨fun q hq => ?_, hf.deferred, ⟨marks, by rw [hmarks]; rfl, hgrounds⟩, hf.answered⟩
  rcases List.mem_append.mp hq with hq | hq
  · exact hf.pending q hq
  · rw [List.mem_singleton.mp (List.mem_filter.mp hq).1]
    exact .root hn

theorem skip (hf : Founded roots h w) (hw : w.pending = p :: rest) :
    Founded roots h { w with pending := rest }.skip :=
  ⟨fun q hq => hf.pending q (hw ▸ List.mem_cons_of_mem _ hq), hf.deferred, hf.record, hf.answered⟩

/-- Every edge that marking a node goes along was answered about a node that is marked by then. -/
theorem traversed (hf : Founded roots h w) (hlast : h.Last p.node deps) :
    ∀ e ∈ w.traversed p deps, Grounds roots h (w.marked ++ [p.node]) e.target e.origin := by
  have hold : w.marked ⊆ w.marked ++ [p.node] := List.subset_append_left _ _
  have hnew : p.node ∈ w.marked ++ [p.node] := List.mem_append_right _ List.mem_cons_self
  intro e he
  rcases Walk.mem_traversed.mp he with ⟨d, hd, hc, rfl⟩ | ⟨d, hd, rfl⟩ | ⟨d, hd, hc, rfl⟩
  · obtain ⟨hm, es, hes, hd⟩ := hf.deferred d hd
    exact .conditional (hold hm) hes hd (hc ▸ hnew)
  · exact .edge hnew hlast.edges hd
  · exact .conditional hnew hlast.conditional hd hc

theorem mark (hf : Founded roots h w) (hw : w.pending = p :: rest) (hlast : h.Last p.node deps) :
    Founded roots h ({ w with pending := rest }.mark p deps) := by
  have hold : w.marked ⊆ w.marked ++ [p.node] := List.subset_append_left _ _
  have hnew : p.node ∈ w.marked ++ [p.node] := List.mem_append_right _ List.mem_cons_self
  have hgrounds {n : NodeId} {o : Origin} (hg : Grounds roots h w.marked n o) :
      Grounds roots h (w.marked ++ [p.node]) n o := hg.mono subset_rfl hold (.refl _ h)
  have htraversed := hf.traversed hlast
  rw [Walk.mark_eq]
  obtain ⟨marks, hmarks, hrecord⟩ := hf.record
  refine ⟨fun q hq => ?_, fun d hd => ?_, ⟨marks.note p.node p.origin, ?_, fun n o ho => ?_⟩,
    fun n hn => ?_⟩
  · rcases List.mem_append.mp hq with hq | hq
    · exact hgrounds (hf.pending q (hw ▸ List.mem_cons_of_mem _ hq))
    · obtain ⟨e, he, rfl⟩ := List.mem_map.mp (List.mem_filter.mp hq).1
      exact htraversed e he
  · rcases Walk.mem_waiting.mp hd with ⟨hd, -⟩ | ⟨e, he, -, rfl⟩
    · obtain ⟨hm, hd⟩ := hf.deferred d hd
      exact ⟨hold hm, hd⟩
    · exact ⟨hnew, deps.conditional, hlast.conditional, he⟩
  · rw [hmarks, Record.noteMark, Record.foldl_noteEdge_first]
    rfl
  · rw [FirstMarks.origin?_note, Option.or_eq_some_iff] at ho
    rcases ho with ho | ⟨-, ho⟩
    · exact hgrounds (hrecord n o ho)
    · obtain ⟨rfl, rfl⟩ : p.node = n ∧ p.origin = o := by simpa using ho
      exact hgrounds (hf.pending p (hw ▸ List.mem_cons_self))
  · rcases List.mem_append.mp hn with hn | hn
    · exact hf.answered n hn
    · rw [List.mem_singleton.mp hn]
      exact ⟨deps, hlast⟩

theorem countWave (hf : Founded roots h w) : Founded roots h w.countWave :=
  ⟨hf.pending, hf.deferred, hf.record, hf.answered⟩

end Founded

namespace Graph

variable {σ ε : Type} {g : Graph σ ε} {ns ms : List NodeId}
  {answers : List (NodeId × Except ε Dependencies)} {n : NodeId} {h h' : Heard σ}

theorem agreeOn_queryAll (hns : ∀ n ∈ ns, n ∉ ms) (h : Heard σ) :
    h.AgreeOn ms (g.heard.queryAll ns h).2 := by
  induction ns generalizing h with
  | nil => exact .refl ms h
  | cons n ns ih =>
    have hfirst := agreeOn_query (g := g) (hns n List.mem_cons_self) h
    exact hfirst.trans (ih (fun m hm => hns m (List.mem_cons_of_mem _ hm)) _)

/-- A wave asks each node once, so what it is answered is what was last answered. -/
theorem last_of_mem_queryAll (hns : ns.Nodup) {deps : Dependencies}
    (hn : (n, .ok deps) ∈ (g.heard.queryAll ns h).1) : (g.heard.queryAll ns h).2.Last n deps := by
  induction ns generalizing h with
  | nil => cases hn
  | cons m ns ih =>
    obtain ⟨hm, hnodup⟩ := List.nodup_cons.mp hns
    rcases List.mem_cons.mp hn with hn | hn
    · obtain ⟨rfl, hanswer⟩ := Prod.mk.inj hn
      have hlast : (g.heard.query n h).2.Last n deps := last_of_query (Prod.ext hanswer.symm rfl)
      have hlater : ∀ k ∈ ns, k ∉ [n] := by
        rintro k hk hn
        exact hm (List.mem_singleton.mp hn ▸ hk)
      exact (agreeOn_queryAll hlater _).last List.mem_cons_self hlast
    · exact ih hnodup hn

/-- The answers in hand are the last about their nodes. -/
def Holds (answers : List (NodeId × Except ε Dependencies)) (h : Heard σ) : Prop :=
  ∀ n deps, answers.lookup n = some (.ok deps) → h.Last n deps

theorem agreeOn_answerFor (answers : List (NodeId × Except ε Dependencies)) (hn : n ∉ ns)
    (h : Heard σ) :
    h.AgreeOn ns (g.heard.answerFor answers n h).2 := by
  unfold answerFor
  split
  · exact .refl ns h
  · exact agreeOn_query hn h

theorem holds_answerFor (hanswers : Holds answers h) (n : NodeId) :
    Holds answers (g.heard.answerFor answers n h).2 := by
  intro m deps hm
  unfold answerFor
  split
  · exact hanswers m deps hm
  · rename_i hn
    have hne : n ∉ [m] := by
      intro hmem
      rw [List.mem_singleton.mp hmem, hm] at hn
      cases hn
    exact (agreeOn_query hne h).last List.mem_cons_self (hanswers m deps hm)

theorem last_answerFor (hanswers : Holds answers h) {deps : Dependencies}
    (ha : g.heard.answerFor answers n h = (.ok deps, h')) : h'.Last n deps := by
  unfold answerFor at ha
  split at ha
  · rename_i answer hn
    obtain ⟨rfl, rfl⟩ := Prod.mk.inj ha
    exact hanswers n deps hn
  · exact last_of_query ha

end Graph

/-- From one point of a walk to a later one marked nodes stay marked, and none is asked about. -/
structure Onward {σ : Type} (a b : Walk × Heard σ) : Prop where
  marked : a.1.marked ⊆ b.1.marked
  agree : a.2.AgreeOn a.1.marked b.2

theorem Onward.refl {σ : Type} (a : Walk × Heard σ) : Onward a a := ⟨List.Subset.refl _, .refl _ _⟩

theorem Onward.trans {σ : Type} {a b c : Walk × Heard σ} (hab : Onward a b) (hbc : Onward b c) :
    Onward a c where
  marked := List.Subset.trans hab.marked hbc.marked
  agree n hn :=
    ⟨(hbc.agree n (hab.marked hn)).1.trans (hab.agree n hn).1,
      (hbc.agree n (hab.marked hn)).2.trans (hab.agree n hn).2⟩

/-- A stage of a walk is founded if its walk is, with the wave in the queue, and nothing was answered
since about the nodes that it holds answers for. -/
structure Stage.Founded {σ ε : Type} (roots : Set (NodeId × String))
    (x : Stage (Heard σ) ε) : Prop where
  walk : AheadOfTime.Founded roots x.state x.rejoined
  answers : Graph.Holds x.answers x.state

namespace Stage

variable {σ ε : Type} {g : Graph σ ε} {roots : Set (NodeId × String)} {x y : Stage (Heard σ) ε}

theorem Founded.refill (hx : x.Founded roots) (inWaves : Bool) :
    (g.heard.refill inWaves x).Founded roots ∧
      x.state.AgreeOn x.walk.marked (g.heard.refill inWaves x).state := by
  have hrejoined := g.heard.refill_rejoined inWaves x
  rcases g.heard.refill_cases inWaves x with ⟨-, h⟩ | ⟨p, rest, hwave, hpending, hwaves, h⟩ |
    ⟨hwave, hpending, hwaves, h⟩ <;> rw [h] at hrejoined ⊢
  · exact ⟨hx, .refl _ _⟩
  · rw [if_neg fun hall => by simp [hwaves] at hall] at hrejoined
    exact ⟨⟨hrejoined ▸ hx.walk, fun _ _ hn => nomatch hn⟩, .refl _ _⟩
  · rw [if_pos ⟨hwave, hpending, hwaves⟩] at hrejoined
    have hunmarked : ∀ n ∈ x.walk.waveNodes, n ∉ x.walk.marked := by
      intro n hn
      simp only [Walk.waveNodes, List.mem_eraseDups, List.mem_filter] at hn
      exact of_decide_eq_true hn.2
    have hagree := Graph.agreeOn_queryAll (g := g) hunmarked x.state
    refine ⟨⟨?_, fun n deps hn => ?_⟩, hagree⟩
    · rw [hrejoined]
      exact hx.walk.countWave.mono subset_rfl hagree
    · obtain ⟨l₁, l₂, hl, -⟩ := List.lookup_eq_some_iff.mp hn
      have hmem : (n, Except.ok deps) ∈ l₁ ++ (n, .ok deps) :: l₂ :=
        List.mem_append_right _ List.mem_cons_self
      rw [← hl] at hmem
      exact Graph.last_of_mem_queryAll (nodup_unmarkedIn _ _) hmem

/-- What every pop keeps. It asks about no marked node again. -/
theorem Founded.pop (hx : x.Founded roots) (inWaves : Bool) :
    (∀ y, g.heard.pop inWaves x = .inr y → y.Founded roots) ∧
      AheadOfTime.Founded roots (position (g.heard.pop inWaves x)).2
        (position (g.heard.pop inWaves x)).1 ∧
      Onward (x.rejoined, x.state) (position (g.heard.pop inWaves x)) := by
  obtain ⟨hfounded, hagree⟩ := hx.refill (g := g) inWaves
  have hpopped := g.heard.popped inWaves x
  have hmarked : (g.heard.refill inWaves x).walk.marked = x.walk.marked := by
    rcases g.heard.refill_cases inWaves x with ⟨-, h⟩ | ⟨p, rest, -, -, -, h⟩ | ⟨-, -, -, h⟩ <;>
      simp only [h, Walk.beginWave]
  have honward {v : Walk} {h : Heard σ} (hv : (g.heard.refill inWaves x).walk.marked ⊆ v.marked)
      (hh : (g.heard.refill inWaves x).state.AgreeOn x.walk.marked h) :
      Onward (x.rejoined, x.state) (v, h) := ⟨hmarked ▸ hv, hagree.trans hh⟩
  rw [← hmarked] at honward
  generalize g.heard.pop inWaves x = result at hpopped ⊢
  generalize g.heard.refill inWaves x = v at hfounded hpopped honward
  obtain ⟨w, h, wave, answers⟩ := v
  obtain ⟨hwalk, hanswers⟩ := hfounded
  cases hpopped with
  | through hv hw =>
    cases hv
    exact ⟨by rintro _ ⟨⟩, hwalk, honward (List.Subset.refl _) (.refl _ _)⟩
  | @skip p rest hv hp =>
    cases hv
    have hskip := hwalk.skip rfl
    refine ⟨?_, hskip, honward (List.Subset.refl _) (.refl _ _)⟩
    rintro _ ⟨⟩
    exact ⟨hskip, hanswers⟩
  | @fail p rest cause h' hv hp ha =>
    cases hv
    have hstep := Graph.agreeOn_answerFor (g := g) answers hp h
    rw [ha] at hstep
    exact ⟨by rintro _ ⟨⟩, hwalk.mono subset_rfl hstep, honward (List.Subset.refl _) hstep⟩
  | @mark p rest deps h' hv hp ha =>
    cases hv
    have hstep := Graph.agreeOn_answerFor (g := g) answers hp h
    have hanswers' := Graph.holds_answerFor (g := g) hanswers p.node
    rw [ha] at hstep hanswers'
    have hmark : AheadOfTime.Founded roots h' ((w.mark p deps).putBack rest) := by
      rw [← Walk.putBack_mark]
      exact (hwalk.mono subset_rfl hstep).mark rfl (Graph.last_answerFor hanswers ha)
    have hsubset : w.marked ⊆ (w.mark p deps).marked := by
      rw [Walk.mark_marked]
      exact List.subset_append_left _ _
    refine ⟨?_, hmark, honward hsubset hstep⟩
    rintro _ ⟨⟩
    exact ⟨hmark, hanswers'⟩

theorem Founded.pops (hx : x.Founded roots) (inWaves : Bool) (k : Nat) :
    AheadOfTime.Founded roots (position (g.heard.pops inWaves k x)).2
        (position (g.heard.pops inWaves k x)).1 ∧
      ∀ j ≤ k, Onward (position (g.heard.pops inWaves j x))
        (position (g.heard.pops inWaves k x)) := by
  induction k generalizing x with
  | zero =>
    refine ⟨hx.walk, fun j hj => ?_⟩
    rw [Nat.le_zero.mp hj]
    exact .refl _
  | succ k ih =>
    obtain ⟨hnext, hnow, honward⟩ := hx.pop (g := g) inWaves
    cases hpop : g.heard.pop inWaves x with
    | inl o =>
      have hpops := g.heard.pops_of_ended hpop
      rw [hpop] at hnow honward
      rw [hpops k]
      refine ⟨hnow, fun j hj => ?_⟩
      cases j with
      | zero => exact honward
      | succ j => rw [hpops j]; exact .refl _
    | inr y =>
      have hpops := g.heard.pops_of_pop hpop
      rw [hpop] at honward
      rw [hpops k]
      obtain ⟨hfounded, hlater⟩ := ih (hnext y hpop)
      refine ⟨hfounded, fun j hj => ?_⟩
      cases j with
      | zero => exact honward.trans (hlater 0 (Nat.zero_le k))
      | succ j => rw [hpops j]; exact hlater j (Nat.le_of_succ_le_succ hj)

end Stage

namespace Graph

variable {σ ε : Type} {g : Graph σ ε} {roots : Set (NodeId × String)}

theorem founded_walk {w : Walk} {h : Heard σ} (hf : Founded roots h w) (inWaves : Bool) :
    Founded roots (g.heard.walk inWaves w h).state (g.heard.walk inWaves w h).walk := by
  have hstart : (Stage.start w h : Stage (Heard σ) ε).Founded roots :=
    ⟨hf, fun _ _ hn => nomatch hn⟩
  obtain ⟨k, hk⟩ := g.heard.exists_pops inWaves w h
  have hpops := (hstart.pops (g := g) inWaves k).1
  rwa [hk] at hpops

end Graph

/-- The roots that some turns ask for, with their reasons. -/
def rootsIn {σ ε : Type} (turns : List (Graph σ ε × Command)) : Set (NodeId × String) :=
  {r | ∃ turn ∈ turns, turn.2 = .root r.1 r.2}

theorem founded_performTurns {σ ε : Type} (s : σ) (turns : List (Graph σ ε × Command)) :
    let o := performTurns .first (.nothing s) (turns.map fun turn => (turn.1.heard, turn.2))
    Founded (rootsIn turns) o.state o.walk := by
  induction turns using List.reverseRecOn with
  | nil => exact .start _ _
  | append_singleton turns turn ih =>
    have hroots : rootsIn turns ⊆ rootsIn (turns ++ [turn]) := fun r ⟨t, ht, hr⟩ =>
      ⟨t, List.mem_append_left _ ht, hr⟩
    have hold := ih.mono hroots (.refl _ _)
    obtain ⟨g, c⟩ := turn
    simp only [performTurns, List.map_append, List.foldl_append, List.map_cons, List.map_nil,
      List.foldl_cons, List.foldl_nil] at hold ⊢
    cases c with
    | root n reason => exact hold.addRoot ⟨_, List.mem_append_right _ List.mem_cons_self, rfl⟩
    | walk inWaves => exact Graph.founded_walk hold inWaves

/-- A chain that ends at a root follows the record node by node, and goes on to lower and lower
nodes. However many more hops it may take, it is the same. -/
theorem follow_visits {origin? : NodeId → Option Origin} {nodes : List NodeId}
    (h : ∀ n o, origin? n = some o → ∀ m, o.source = some m →
      m ∈ nodes ∧ nodes.idxOf m < nodes.idxOf n)
    {os : List Origin} {root : Origin} (hroot : root.source = none) {hops : Nat} {n : NodeId}
    (hn : follow origin? hops n = some (os ++ [root])) :
    List.Forall₂ (fun m o => origin? m = some o) (n :: os.filterMap Origin.source) (os ++ [root]) ∧
      (n :: os.filterMap Origin.source).Pairwise (fun a b => nodes.idxOf b < nodes.idxOf a) ∧
      ∀ more, os.length < more → follow origin? more n = some (os ++ [root]) := by
  induction hops generalizing n os with
  | zero => simp [follow] at hn
  | succ hops ih =>
    cases ho : origin? n with
    | none => simp [follow, ho] at hn
    | some o =>
      cases hsource : o.source with
      | none =>
        have hchain : [] ++ [o] = os ++ [root] := by simpa [follow, ho, hsource] using hn
        obtain ⟨rfl, hlast⟩ := List.append_inj' hchain rfl
        obtain rfl : o = root := List.singleton_injective hlast
        refine ⟨.cons ho .nil, List.pairwise_singleton _ _, fun more hmore => ?_⟩
        obtain ⟨k, rfl⟩ := Nat.exists_eq_succ_of_ne_zero (Nat.ne_zero_of_lt hmore)
        simp [follow, ho, hsource]
      | some m =>
        have hchain : (follow origin? hops m).map (o :: ·) = some (os ++ [root]) := by
          simpa [follow, ho, hsource] using hn
        obtain ⟨rest, hrest, hcons⟩ := Option.map_eq_some_iff.mp hchain
        cases os with
        | nil =>
          obtain ⟨rfl, -⟩ := List.cons.inj hcons
          rw [hroot] at hsource
          cases hsource
        | cons o' os =>
          obtain ⟨rfl, rfl⟩ := List.cons.inj hcons
          obtain ⟨hrecorded, hlower, hmore⟩ := ih hrest
          obtain ⟨hm, hlt⟩ := h n o ho m hsource
          rw [List.filterMap_cons_some hsource]
          refine ⟨.cons ho hrecorded, List.pairwise_cons.mpr ⟨fun k hk => ?_, hlower⟩, ?_⟩
          · rcases List.mem_cons.mp hk with rfl | hk
            · exact hlt
            · exact (List.rel_of_pairwise_cons hlower hk).trans hlt
          · intro more hlength
            obtain ⟨k, rfl⟩ := Nat.exists_eq_succ_of_ne_zero (Nat.ne_zero_of_lt hlength)
            have hfollow := hmore k (by simpa using hlength)
            simp [follow, ho, hsource, hfollow]

/-- The reasons that are recorded form a forest: marked nodes have one each, for which there are
grounds, sources come before what they asked for, and the way back from any node visits no node
twice and ends at a root before the length to which it is cut. -/
structure Forest {σ : Type} (roots : Set (NodeId × String)) (h : Heard σ) (marked : List NodeId)
    (marks : FirstMarks) : Prop where
  nodes : ∀ n, (marks.origin? n).isSome ↔ n ∈ marked
  grounds : ∀ n o, marks.origin? n = some o → Grounds roots h marked n o
  earlier : ∀ n o, marks.origin? n = some o → ∀ m, o.source = some m →
    m ∈ marked ∧ marked.idxOf m < marked.idxOf n
  answered : ∀ n ∈ marked, ∃ deps, h.Last n deps
  trails : ∀ n ∈ marked, ∃ os root, marks.trail n = some (os ++ [root]) ∧ root.source = none ∧
    List.Forall₂ (fun m o => marks.origin? m = some o) (n :: os.filterMap Origin.source)
      (os ++ [root]) ∧
    (n :: os.filterMap Origin.source).Nodup ∧ (os ++ [root]).length ≤ marks.size ∧
    ∀ hops, (os ++ [root]).length ≤ hops → follow marks.origin? hops n = some (os ++ [root])

theorem Founded.forest {σ : Type} {roots : Set (NodeId × String)} {h : Heard σ} {w : Walk}
    {marks : FirstMarks} {log : EdgeLog} (hf : Founded roots h w) (hw : w.record = .first marks)
    (story : SameStory w.marked w.pending marks log) : Forest roots h w.marked marks := by
  refine ⟨fun n => story.isSome_origin?, fun n o ho => ?_, story.earlier, hf.answered,
    fun n hn => ?_⟩
  · obtain ⟨marks', hmarks', hgrounds⟩ := hf.record
    obtain rfl : marks = marks' := Record.first.inj (hw.symm.trans hmarks')
    exact hgrounds n o ho
  · obtain ⟨os, root, hroot, htrail, -⟩ := story.trail_eq hn
    obtain ⟨hrecorded, hlower, hmore⟩ := follow_visits story.earlier hroot htrail
    have hnodup : (n :: os.filterMap Origin.source).Nodup :=
      hlower.imp fun hlt => by rintro rfl; exact lt_irrefl _ hlt
    have hmarked : n :: os.filterMap Origin.source ⊆ w.marked := by
      intro m hm
      obtain ⟨o, -, ho⟩ := exists_mem_right hrecorded m hm
      exact story.isSome_origin?.mp (by rw [ho]; rfl)
    have hsize : marks.size = w.marked.length := by
      rw [FirstMarks.size, ← story.nodes, List.length_map]
    refine ⟨os, root, htrail, hroot, hrecorded, hnodup, ?_, fun hops hhops => hmore hops ?_⟩
    · rw [← hrecorded.length_eq, hsize]
      exact (List.subperm_of_subset hnodup hmarked).length_le
    · simpa using hhops

/-- After any number of pops the record of first marks tells the same as the log of a walk that was
told the same. -/
theorem exists_sameStory {σ ε : Type} (s : σ) (turns : List (Graph σ ε × Command))
    (g : Graph σ ε) (inWaves : Bool) (k : Nat) :
    let before := performTurns .first s turns
    let now := (position (g.pops inWaves k (.start before.walk before.state))).1
    ∃ marks log, now.record = .first marks ∧ SameStory now.marked now.pending marks log := by
  have hturns := performTurns_together Walk.lockstep_tellAlike Walk.tellAlike_start s turns
  have hstart : (Stage.start (performTurns .first s turns).walk
      (performTurns .first s turns).state : Stage σ ε).Together Walk.TellAlike
      (.start (performTurns .all s turns).walk (performTurns .all s turns).state) :=
    ⟨hturns.walk, hturns.state, rfl, rfl⟩
  have hpops := g.pops_together Walk.lockstep_tellAlike hstart inWaves k
  intro before now
  have htell : ∃ w, Walk.TellAlike now w := by
    simp only [now, before]
    generalize g.pops inWaves k (.start _ (performTurns .first s turns).state) = reached at hpops ⊢
    generalize g.pops inWaves k _ = reached' at hpops
    cases hpops with
    | inl ho => exact ⟨_, ho.walk⟩
    | inr hy => exact ⟨_, hy.walk⟩
  obtain ⟨w, u, marks, log, hnow, -, story, -⟩ := htell
  rw [hnow]
  exact ⟨marks, log, rfl, story⟩

/-- Whatever a walk with a record of first marks is told, over graphs that may be others at every
turn, and whether its walks fail or not, after any number of pops the recorded reasons form a
forest: each node was marked for a root or for what was answered last about its source, and this was
answered before the source was marked, since marked nodes are not asked about again. -/
theorem reasons_form_forest {σ ε : Type} (s : σ) (turns : List (Graph σ ε × Command))
    (g : Graph σ ε) (inWaves : Bool) (k : Nat) :
    let before := performTurns .first (.nothing s) (turns.map fun turn => (turn.1.heard, turn.2))
    let point := fun j => position (g.heard.pops inWaves j (.start before.walk before.state))
    performTurns .first s turns = before.map Heard.state ∧
    g.pops inWaves k (.start before.walk before.state.state) =
      (g.heard.pops inWaves k (.start before.walk before.state)).map (Outcome.map Heard.state)
        (Stage.map Heard.state) ∧
    (∀ j ≤ k, Onward (point j) (point k)) ∧
    ∃ marks, (point k).1.record = .first marks ∧
      Forest (rootsIn turns) (point k).2 (point k).1.marked marks := by
  intro before point
  have hfounded : (Stage.start before.walk before.state : Stage (Heard σ) ε).Founded
      (rootsIn turns) := ⟨founded_performTurns s turns, fun _ _ hn => nomatch hn⟩
  obtain ⟨hnow, honward⟩ := hfounded.pops (g := g) inWaves k
  obtain ⟨marks, log, hrecord, story⟩ := exists_sameStory (.nothing s)
    (turns.map fun turn => (turn.1.heard, turn.2)) g.heard inWaves k
  exact ⟨performTurns_over Graph.heard_over .first (.nothing s) turns,
    g.heard_over.pops inWaves k (.start before.walk before.state), honward, marks, hrecord,
    hnow.forest hrecord story⟩

end AheadOfTime
