import AheadOfTime.Proofs.Marking.Discovery
import Mathlib

/-! Trails of records that anyone may have written. The chain of origins from a node comes to a root,
or to a node without a record, or it goes round in a circle. It goes round as soon as it has more
hops than nodes are recorded, for then it has come to one of them twice (`Chain.cyclic`), so what is
cut at that length is a circle. Main statement: a trail is none, the whole chain or its beginning
just when the chain ends without a record, ends at a root or does not end. -/

namespace AheadOfTime

/-- Origins that lead on from one place to another. Places are nodes, and `none` beyond a root. -/
inductive Chain (origin? : NodeId → Option Origin) :
    Option NodeId → List Origin → Option NodeId → Prop where
  | nil {p} : Chain origin? p [] p
  | cons {n o os p} (hn : origin? n = some o) (hos : Chain origin? o.source os p) :
    Chain origin? (some n) (o :: os) p

/-- The chain from a node comes to some node again and again. -/
def Cyclic (origin? : NodeId → Option Origin) (n : NodeId) : Prop :=
  ∃ m os circle, Chain origin? (some n) os (some m) ∧ circle ≠ [] ∧
    Chain origin? (some m) circle (some m)

/-- No origin leads on from here: it is beyond a root, or a node without a record. -/
def NoFurther (origin? : NodeId → Option Origin) (p : Option NodeId) : Prop :=
  ∀ n, p = some n → origin? n = none

namespace Chain

variable {origin? : NodeId → Option Origin} {n : NodeId} {os qs : List Origin}
  {p q r : Option NodeId}

theorem append (hos : Chain origin? p os q) (hqs : Chain origin? q qs r) :
    Chain origin? p (os ++ qs) r := by
  induction hos with
  | nil => exact hqs
  | cons hn _ ih => exact .cons hn (ih hqs)

theorem split (h : Chain origin? p (os ++ qs) r) :
    ∃ q, Chain origin? p os q ∧ Chain origin? q qs r := by
  induction os generalizing p with
  | nil => exact ⟨p, .nil, h⟩
  | cons o os ih =>
    cases h with
    | cons hn h =>
      obtain ⟨q, hos, hqs⟩ := ih h
      exact ⟨q, .cons hn hos, hqs⟩

/-- Of two chains from one place, the one that is not longer begins the other. -/
theorem extend (hos : Chain origin? p os q) (hqs : Chain origin? p qs r)
    (hlength : os.length ≤ qs.length) : ∃ more, qs = os ++ more ∧ Chain origin? q more r := by
  induction hos generalizing qs with
  | nil => exact ⟨qs, rfl, hqs⟩
  | cons hn _ ih =>
    cases hqs with
    | nil => simp at hlength
    | cons hn' hqs =>
      obtain rfl := Option.some.inj (hn.symm.trans hn')
      obtain ⟨more, rfl, hmore⟩ := ih hqs (by simpa using hlength)
      exact ⟨more, rfl, hmore⟩

theorem exists_origin (h : Chain origin? p os q) (hos : os ≠ []) :
    ∃ n o, p = some n ∧ origin? n = some o := by
  cases h with
  | nil => exact absurd rfl hos
  | cons hn _ => exact ⟨_, _, rfl, hn⟩

theorem eq_nil (h : Chain origin? p os q) (hp : NoFurther origin? p) : os = [] := by
  by_contra hos
  obtain ⟨n, o, hn, ho⟩ := h.exists_origin hos
  rw [hp n hn] at ho
  cases ho

/-- The last origin says where a chain has come to. -/
theorem source_getLast? (h : Chain origin? p os q) (hos : os ≠ []) :
    os.getLast?.map Origin.source = some q := by
  induction h with
  | nil => exact absurd rfl hos
  | @cons n o rest place _ hrest ih =>
    by_cases hrest' : rest = []
    · subst hrest'
      generalize hplace : o.source = place' at hrest
      cases hrest
      rw [List.getLast?_singleton, Option.map_some, hplace]
    · rw [List.getLast?_cons_of_ne_nil hrest']
      exact ih hrest'

/-- A chain ends at one place and nowhere else. -/
theorem unique (hos : Chain origin? p os q) (hqs : Chain origin? p qs r)
    (hq : NoFurther origin? q) (hr : NoFurther origin? r) : os = qs ∧ q = r := by
  rcases Nat.le_total os.length qs.length with hle | hle
  · obtain ⟨more, rfl, hmore⟩ := hos.extend hqs hle
    obtain rfl := hmore.eq_nil hq
    cases hmore
    exact ⟨(List.append_nil os).symm, rfl⟩
  · obtain ⟨more, rfl, hmore⟩ := hqs.extend hos hle
    obtain rfl := hmore.eq_nil hr
    cases hmore
    exact ⟨List.append_nil qs, rfl⟩

/-- Before its end a chain is at recorded nodes. -/
theorem exists_node_take (h : Chain origin? p os q) {k : ℕ} (hk : k < os.length) :
    ∃ m, Chain origin? p (os.take k) (some m) ∧ (origin? m).isSome := by
  obtain ⟨r, hbefore, hafter⟩ : ∃ r, Chain origin? p (os.take k) r ∧
      Chain origin? r (os.drop k) q := split (by rwa [List.take_append_drop])
  obtain ⟨m, o, rfl, ho⟩ := hafter.exists_origin (by simpa using hk)
  exact ⟨m, hbefore, by rw [ho]; rfl⟩

/-- A chain of more hops than there are recorded nodes comes to one of them twice. -/
theorem cyclic (h : Chain origin? (some n) os q) {nodes : Finset NodeId}
    (hnodes : ∀ m, (origin? m).isSome → m ∈ nodes) (hlong : nodes.card < os.length) :
    Cyclic origin? n := by
  have hbefore : ∀ k : Fin os.length,
      ∃ m, Chain origin? (some n) (os.take k) (some m) ∧ (origin? m).isSome :=
    fun k => h.exists_node_take k.isLt
  choose node hchain hsome using hbefore
  have hcard : nodes.card < (Finset.univ : Finset (Fin os.length)).card := by simpa using hlong
  obtain ⟨i, -, j, -, hne, hsame⟩ := Finset.exists_ne_map_eq_of_card_lt_of_maps_to hcard
    fun k _ => hnodes _ (hsome k)
  -- the circle begins at the earlier of the two places
  wlog hlt : i < j generalizing i j
  · exact this j i hne.symm hsame.symm (lt_of_le_of_ne (not_lt.mp hlt) hne.symm)
  obtain ⟨circle, hcircle, hround⟩ :=
    (hchain i).extend (hchain j) (by simp only [List.length_take]; omega)
  rw [← hsame] at hround
  refine ⟨node i, os.take i, circle, hchain i, ?_, hround⟩
  rintro rfl
  have hlengths := congrArg List.length hcircle
  simp only [List.append_nil, List.length_take] at hlengths
  omega

/-- Going round and round, a chain gets as long as one likes. -/
theorem exists_longer (h : Chain origin? p os p) (hos : os ≠ []) (k : ℕ) :
    ∃ qs, Chain origin? p qs p ∧ k < qs.length := by
  have hpos : 0 < os.length := List.length_pos_iff.mpr hos
  induction k with
  | zero => exact ⟨os, h, hpos⟩
  | succ k ih =>
    obtain ⟨qs, hqs, hk⟩ := ih
    exact ⟨qs ++ os, hqs.append h, by rw [List.length_append]; omega⟩

end Chain

section Follow

variable {origin? : NodeId → Option Origin} {n : NodeId}

/-- What following the chain gives, by where the chain goes. -/
inductive Followed (origin? : NodeId → Option Origin) (hops : ℕ) (n : NodeId) :
    Option (List Origin) → Prop where
  | whole {os} (h : Chain origin? (some n) os none) : Followed origin? hops n (some os)
  | broken {os m} (h : Chain origin? (some n) os (some m)) (hm : origin? m = none) :
    Followed origin? hops n none
  | cut {os m} (h : Chain origin? (some n) os (some m)) (hlength : os.length = hops) :
    Followed origin? hops n (some os)

theorem followed (hops : ℕ) (n : NodeId) : Followed origin? hops n (follow origin? hops n) := by
  induction hops generalizing n with
  | zero => exact .cut .nil rfl
  | succ hops ih =>
    cases ho : origin? n with
    | none =>
      have hfollow : follow origin? (hops + 1) n = none := by simp [follow, ho]
      rw [hfollow]
      exact .broken .nil ho
    | some o =>
      cases hsource : o.source with
      | none =>
        have hfollow : follow origin? (hops + 1) n = some [o] := by simp [follow, ho, hsource]
        rw [hfollow]
        exact .whole (.cons ho (hsource ▸ .nil))
      | some m =>
        have hfollow : follow origin? (hops + 1) n = (follow origin? hops m).map (o :: ·) := by
          simp [follow, ho, hsource]
        have hrest := ih m
        rw [hfollow]
        generalize follow origin? hops m = rest at hrest ⊢
        cases hrest with
        | whole h => exact .whole (.cons ho (hsource ▸ h))
        | broken h hm => exact .broken (.cons ho (hsource ▸ h)) hm
        | cut h hlength => exact .cut (.cons ho (hsource ▸ h)) (by simp [hlength])

/-- A chain that goes round in a circle has no end. -/
theorem Cyclic.goes_on (h : Cyclic origin? n) {os : List Origin} {p : Option NodeId}
    (hos : Chain origin? (some n) os p) : ¬ NoFurther origin? p := by
  obtain ⟨m, start, circle, hstart, hcircle, hround⟩ := h
  obtain ⟨qs, hqs, hlength⟩ := hround.exists_longer hcircle os.length
  -- the chain goes on where this one stops, since it goes round often enough to be longer
  obtain ⟨more, hmore, hon⟩ := hos.extend (hstart.append hqs) (by rw [List.length_append]; omega)
  intro hend
  obtain rfl := hon.eq_nil hend
  have hlengths := congrArg List.length hmore
  simp only [List.append_nil, List.length_append] at hlengths
  omega

theorem noFurther_root : NoFurther origin? none := fun _ h => nomatch h

theorem noFurther_iff {m : NodeId} : NoFurther origin? (some m) ↔ origin? m = none := by
  constructor
  · intro h
    exact h m rfl
  · rintro h _ ⟨⟩
    exact h

/-- The last of the origins is that of a root. -/
def EndsAtRoot (os : List Origin) : Prop := ∃ root ∈ os.getLast?, root.source = none

/-- A trail tells how the chain from a node goes on. It is none if the chain comes to a node without
a record, the whole chain if that ends at a root, and otherwise, the chain going round in a circle,
as many hops as there are nodes with a record and one more. -/
structure TellsChain (origin? : NodeId → Option Origin) (recorded : ℕ) (n : NodeId)
    (trail : Option (List Origin)) : Prop where
  broken : trail = none ↔ ∃ os m, Chain origin? (some n) os (some m) ∧ origin? m = none
  whole : ∀ os, trail = some os ∧ EndsAtRoot os ↔ Chain origin? (some n) os none
  cyclic : (∃ os, trail = some os ∧ ¬ EndsAtRoot os) ↔ Cyclic origin? n
  beginning : ∀ os, trail = some os → ¬ EndsAtRoot os →
    os.length = recorded + 1 ∧ ∃ m, Chain origin? (some n) os (some m)

theorem Chain.endsAtRoot_iff {os : List Origin} {p : Option NodeId}
    (h : Chain origin? (some n) os p) (hos : os ≠ []) : EndsAtRoot os ↔ p = none := by
  obtain ⟨last, hlast, hsource⟩ := Option.map_eq_some_iff.mp (h.source_getLast? hos)
  rw [EndsAtRoot, hlast, ← hsource]
  simp

namespace TellsChain

variable {recorded : ℕ} {os : List Origin} {m : NodeId}

theorem of_whole (h : Chain origin? (some n) os none) :
    TellsChain origin? recorded n (some os) := by
  have hroot : EndsAtRoot os := (h.endsAtRoot_iff (by rintro rfl; cases h)).mpr rfl
  constructor
  case broken =>
    refine ⟨by simp, ?_⟩
    rintro ⟨qs, m, hqs, hm⟩
    cases (h.unique hqs noFurther_root (noFurther_iff.mpr hm)).2
  case whole =>
    refine fun qs => ⟨?_, fun hqs => ?_⟩
    · rintro ⟨⟨⟩, -⟩
      exact h
    · obtain ⟨rfl, -⟩ := h.unique hqs noFurther_root noFurther_root
      exact ⟨rfl, hroot⟩
  case cyclic =>
    refine ⟨?_, fun hcyclic => absurd noFurther_root (hcyclic.goes_on h)⟩
    rintro ⟨_, ⟨⟩, hqs⟩
    exact absurd hroot hqs
  case beginning =>
    rintro _ ⟨⟩ hqs
    exact absurd hroot hqs

theorem of_broken (h : Chain origin? (some n) os (some m)) (hm : origin? m = none) :
    TellsChain origin? recorded n none := by
  have hend : NoFurther origin? (some m) := noFurther_iff.mpr hm
  constructor
  case broken => exact ⟨fun _ => ⟨os, m, h, hm⟩, fun _ => rfl⟩
  case whole =>
    refine fun qs => ⟨by simp, fun hqs => ?_⟩
    cases (h.unique hqs hend noFurther_root).2
  case cyclic => exact ⟨by simp, fun hcyclic => absurd hend (hcyclic.goes_on h)⟩
  case beginning => simp

theorem of_cyclic (hcyclic : Cyclic origin? n) (h : Chain origin? (some n) os (some m))
    (hlength : os.length = recorded + 1) : TellsChain origin? recorded n (some os) := by
  have hroot : ¬ EndsAtRoot os := by
    rw [h.endsAtRoot_iff (by rintro rfl; simp at hlength)]
    simp
  constructor
  case broken =>
    refine ⟨by simp, ?_⟩
    rintro ⟨qs, k, hqs, hk⟩
    exact absurd (noFurther_iff.mpr hk) (hcyclic.goes_on hqs)
  case whole =>
    refine fun qs => ⟨?_, fun hqs => absurd noFurther_root (hcyclic.goes_on hqs)⟩
    rintro ⟨⟨⟩, hqs⟩
    exact absurd hqs hroot
  case cyclic => exact ⟨fun _ => hcyclic, fun _ => ⟨os, rfl, hroot⟩⟩
  case beginning =>
    rintro _ ⟨⟩ -
    exact ⟨hlength, m, h⟩

end TellsChain

/-- Following for one hop more than there are nodes with a record tells how the chain goes on: what
is cut there has come to some node twice. -/
theorem follow_tellsChain {nodes : Finset NodeId}
    (hnodes : ∀ m, (origin? m).isSome → m ∈ nodes) (n : NodeId) :
    TellsChain origin? nodes.card n (follow origin? (nodes.card + 1) n) := by
  have hfollowed : Followed origin? (nodes.card + 1) n (follow origin? (nodes.card + 1) n) :=
    followed _ n
  generalize follow origin? (nodes.card + 1) n = trail at hfollowed
  cases hfollowed with
  | whole h => exact .of_whole h
  | broken h hm => exact .of_broken h hm
  | cut h hlength => exact .of_cyclic (h.cyclic hnodes (by omega)) h hlength

end Follow

section Entries

variable {β : Type} {entries : List (NodeId × β)} {n : NodeId}

theorem mem_keys_iff : n ∈ entries.map (·.1) ↔ (entries.lookup n).isSome := by
  simp [List.lookup_isSome_iff]

theorem nodup_keys_concat (h : (entries.map (·.1)).Nodup) (hn : entries.lookup n = none) (b : β) :
    ((entries ++ [(n, b)]).map (·.1)).Nodup := by
  have hnew : n ∉ entries.map (·.1) := by rw [mem_keys_iff, hn]; simp
  rw [List.map_append]
  exact h.append (List.nodup_singleton n) (by simpa using hnew)

/-- Entries under distinct nodes are as many as the nodes that have one. -/
theorem length_eq_card (h : (entries.map (·.1)).Nodup) {nodes : Finset NodeId}
    (hnodes : ∀ m, m ∈ nodes ↔ (entries.lookup m).isSome) : entries.length = nodes.card := by
  have heq : (entries.map (·.1)).toFinset = nodes := by
    ext m
    rw [List.mem_toFinset, mem_keys_iff, hnodes]
  rw [← heq, List.toFinset_card_of_nodup h, List.length_map]

end Entries

namespace FirstMarks

/-- What a record of first marks holds once it has heard of some marks. -/
def heard (calls : List (NodeId × Origin)) : FirstMarks :=
  calls.foldl (fun f call => f.note call.1 call.2) .empty

theorem origin?_foldl (calls : List (NodeId × Origin)) (f : FirstMarks) (n : NodeId) :
    (calls.foldl (fun f call => f.note call.1 call.2) f).origin? n =
      (f.origin? n).or (calls.lookup n) := by
  induction calls generalizing f with
  | nil => simp
  | cons call calls ih =>
    rw [List.foldl_cons, ih, origin?_note, Option.or_assoc, List.lookup_cons]
    by_cases hn : call.1 = n
    · simp [hn]
    · have hne : (n == call.1) = false := by simpa using fun h => hn h.symm
      simp [hn, hne]

/-- The origin of a node is that of the first mark of it that was heard of. -/
theorem origin?_heard (calls : List (NodeId × Origin)) :
    (heard calls).origin? = fun n => calls.lookup n := by
  funext n
  rw [heard, origin?_foldl]
  rfl

theorem nodup_note {f : FirstMarks} (h : (f.entries.map (·.1)).Nodup) (n : NodeId) (o : Origin) :
    ((f.note n o).entries.map (·.1)).Nodup := by
  cases hn : f.origin? n with
  | some o' =>
    rw [note, hn]
    exact h
  | none =>
    rw [entries_note hn]
    exact nodup_keys_concat h hn o

theorem nodup_foldl (calls : List (NodeId × Origin)) {f : FirstMarks}
    (h : (f.entries.map (·.1)).Nodup) :
    ((calls.foldl (fun f call => f.note call.1 call.2) f).entries.map (·.1)).Nodup := by
  induction calls generalizing f with
  | nil => exact h
  | cons call calls ih => exact ih (nodup_note h call.1 call.2)

theorem size_heard (calls : List (NodeId × Origin)) :
    (heard calls).size = (calls.map (·.1)).toFinset.card := by
  have hnodup : ((heard calls).entries.map (·.1)).Nodup :=
    nodup_foldl calls (f := empty) List.nodup_nil
  refine length_eq_card hnodup fun n => ?_
  rw [List.mem_toFinset, mem_keys_iff, ← congrFun (origin?_heard calls) n, origin?]

end FirstMarks

namespace EdgeLog

/-- What a log of edges holds once it has heard of some edges. -/
def heard (es : List RecordedEdge) : EdgeLog := es.foldl note .empty

theorem indexed_heard (es : List RecordedEdge) : (heard es).Indexed := by
  refine List.foldlRecOn (motive := Indexed) es _ indexed_empty ?_
  intro l hl e _
  exact hl.note e

theorem mem_edges_heard {es : List RecordedEdge} {e : RecordedEdge} :
    e ∈ (heard es).edges ↔ e ∈ es := by
  rw [heard, mem_edges_foldl]
  simp [empty]

theorem head?_into_foldl (es : List RecordedEdge) (l : EdgeLog) (n : NodeId) :
    ((es.foldl note l).into n).head? = (l.into n).head?.or (es.find? (·.target = n)) := by
  induction es generalizing l with
  | nil => simp
  | cons e es ih =>
    rw [List.foldl_cons, ih, head?_into_note, Option.or_assoc, List.find?_cons]
    by_cases hn : e.target = n <;> simp [hn]

/-- The first edge into a node is the first that was heard of. -/
theorem head?_into_heard (es : List RecordedEdge) (n : NodeId) :
    ((heard es).into n).head? = es.find? (·.target = n) := by
  rw [heard, head?_into_foldl]
  simp [into, empty]

theorem origin?_heard (es : List RecordedEdge) :
    (heard es).origin? = fun n => (es.find? (·.target = n)).map RecordedEdge.origin := by
  funext n
  rw [(indexed_heard es).origin?_eq, head?_into_heard]

theorem nodup_note {l : EdgeLog} (h : (l.firstInto.map (·.1)).Nodup) (e : RecordedEdge) :
    ((l.note e).firstInto.map (·.1)).Nodup := by
  unfold note
  split
  · exact h
  · cases hfirst : l.firstInto.lookup e.target with
    | some i => exact h
    | none => exact nodup_keys_concat h hfirst l.edges.length

theorem nodup_foldl (es : List RecordedEdge) {l : EdgeLog} (h : (l.firstInto.map (·.1)).Nodup) :
    ((es.foldl note l).firstInto.map (·.1)).Nodup := by
  induction es generalizing l with
  | nil => exact h
  | cons e es ih => exact ih (nodup_note h e)

theorem length_firstInto_heard (es : List RecordedEdge) :
    (heard es).firstInto.length = (es.map (·.target)).toFinset.card := by
  have hnodup : ((heard es).firstInto.map (·.1)).Nodup :=
    nodup_foldl es (l := empty) List.nodup_nil
  refine length_eq_card hnodup fun n => ?_
  rw [indexed_heard es n, List.findIdx?_isSome]
  simp [mem_edges_heard]

/-- The index leads to edges of the log: for each node to the first that was heard of. -/
theorem getElem?_of_lookup {es : List RecordedEdge} {n : NodeId} {i : ℕ}
    (h : (heard es).firstInto.lookup n = some i) :
    ∃ e, (heard es).edges[i]? = some e ∧ es.find? (·.target = n) = some e := by
  rw [indexed_heard es n] at h
  obtain ⟨hi, -⟩ := List.findIdx?_eq_some_iff_getElem.mp h
  have hfirst := head?_into_heard es n
  rw [into, List.head?_filter, List.find?_eq_bind_findIdx?_getElem?, h, Option.bind_some] at hfirst
  rw [← hfirst]
  exact ⟨(heard es).edges[i], List.getElem?_eq_getElem hi, List.getElem?_eq_getElem hi⟩

end EdgeLog

/-- Whatever marks and edges the two records heard of, in any order and whether or not a walk could
have gone so, the trail from each node tells how the chain of what was heard first goes on, and the
index of first edges leads to edges in the log. -/
theorem trails_cut_cycles_only (calls : List (NodeId × Origin)) (es : List RecordedEdge)
    (n : NodeId) :
    TellsChain (fun m => calls.lookup m) (calls.map (·.1)).toFinset.card n
      ((FirstMarks.heard calls).trail n) ∧
    TellsChain (fun m => (es.find? (·.target = m)).map RecordedEdge.origin)
      (es.map (·.target)).toFinset.card n ((EdgeLog.heard es).trail n) ∧
    ∀ m i, (EdgeLog.heard es).firstInto.lookup m = some i →
      ∃ e, (EdgeLog.heard es).edges[i]? = some e ∧ es.find? (·.target = m) = some e := by
  refine ⟨?_, ?_, fun m i => EdgeLog.getElem?_of_lookup⟩
  · rw [FirstMarks.trail, FirstMarks.origin?_heard, FirstMarks.size_heard]
    apply follow_tellsChain
    intro m hm
    rwa [List.mem_toFinset, mem_keys_iff]
  · rw [EdgeLog.trail, EdgeLog.origin?_heard, EdgeLog.length_firstInto_heard]
    apply follow_tellsChain
    intro m hm
    obtain ⟨o, ho⟩ := Option.isSome_iff_exists.mp hm
    obtain ⟨e, he, -⟩ := Option.map_eq_some_iff.mp ho
    have htarget : e.target = m := by simpa using List.find?_some he
    rw [List.mem_toFinset, ← htarget]
    exact List.mem_map_of_mem (List.mem_of_find?_eq_some he)

/-- Two nodes ask for each other, and one of them for a third. That the first is a root as well was
heard of too late. -/
theorem trails_cut_cycles_only_circling :
    let calls := [(NodeId.small 2, ⟨some (.small 5), "lost"⟩)]
    let es : List RecordedEdge :=
      [⟨some (.small 1), .small 0, none, "a"⟩, ⟨some (.small 0), .small 1, none, "b"⟩,
        ⟨some (.small 1), .small 2, some (.small 0), "c"⟩, ⟨none, .small 0, none, "late"⟩]
    (∃ os m, Chain (fun m => calls.lookup m) (some (.small 2)) os (some m) ∧
      calls.lookup m = none) ∧
    ((EdgeLog.heard es).trail (.small 2)).map (·.map (·.reason)) = some ["c", "b", "a", "b"] ∧
    Cyclic (fun m => (es.find? (·.target = m)).map RecordedEdge.origin) (.small 2) ∧
    (EdgeLog.heard es).firstInto.lookup (.small 2) = some 2 ∧
    ∃ e, (EdgeLog.heard es).edges[2]? = some e ∧ es.find? (·.target = .small 2) = some e := by
  intro calls es
  obtain ⟨hmarks, hedges, hindex⟩ := trails_cut_cycles_only calls es (.small 2)
  have htrail : (EdgeLog.heard es).trail (.small 2) =
      some [⟨some (.small 1), "c"⟩, ⟨some (.small 0), "b"⟩, ⟨some (.small 1), "a"⟩,
        ⟨some (.small 0), "b"⟩] := by decide
  have hfirst : (EdgeLog.heard es).firstInto.lookup (.small 2) = some 2 := by decide
  refine ⟨hmarks.broken.mp (by decide), by rw [htrail]; rfl, hedges.cyclic.mp ⟨_, htrail, ?_⟩,
    hfirst, hindex _ _ hfirst⟩
  rintro ⟨_, ⟨⟩, ⟨⟩⟩

end AheadOfTime
