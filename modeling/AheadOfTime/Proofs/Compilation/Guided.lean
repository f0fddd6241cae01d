import AheadOfTime.Proofs.Compilation.Parallel
import AheadOfTime.Proofs.Node.Progress

/-! When a run succeeds. Given a store that has what the roots ask for, and a set of keys that is
closed and whose members ask for nothing that the store lacks, gathering and walking succeed from
nothing, and come to a store that holds nothing beyond the given one (`outcome_of_guide`). -/

namespace AheadOfTime

variable {β : Type}

namespace Program

variable {p : Program β} {s t : Store β}

theorem resolveRoots_yields (ht : p.Guide t) (hs : p.Follows t s) {rs : List Reference}
    (hav : ∀ r ∈ rs, p.Available t r.target) :
    (p.resolveRoots rs s).error = none ∧ p.Follows t (p.resolveRoots rs s).store := by
  induction rs generalizing s with
  | nil => exact ⟨rfl, hs⟩
  | cons r rs ih =>
    obtain ⟨n, s₁, hrun, hs₁⟩ := resolve_yields ht hs none (hav r List.mem_cons_self)
    unfold resolveRoots
    rw [hrun]
    exact ih hs₁ fun r hr => hav r (List.mem_cons_of_mem _ hr)

/-- Gathering succeeds if the guide has what the sources ask for. -/
theorem gather_yields (ht : p.Guide t) (hs : p.Follows t s) {sources : List RootSource}
    (hav : ∀ r ∈ sources.flatMap (·.references p.world), p.Available t r.target) :
    (p.gather sources s).error = none ∧ p.Follows t (p.gather sources s).store := by
  induction sources generalizing s with
  | nil => exact ⟨rfl, hs⟩
  | cons source sources ih =>
    rw [List.flatMap_cons] at hav
    obtain ⟨hfound, hs₁⟩ :=
      resolveRoots_yields ht hs fun r hr => hav r (List.mem_append_left _ hr)
    have hfound : (p.provide source s).error = none := hfound
    have hs₁ : p.Follows t (p.provide source s).store := hs₁
    unfold gather
    dsimp only
    rw [hfound]
    exact ih hs₁ fun r hr => hav r (List.mem_append_right _ hr)

/-- A request makes a node for its own key, or none. -/
theorem resolve_keys (requestedBy : Option NodeId) (r : Request) (s : Store β) {k : Key}
    (hk : (((p.resolve requestedBy r).run s).2.lookup k).isSome) :
    (s.lookup k).isSome ∨ k = p.key r := by
  rw [resolve, ← key] at hk
  rcases p.obtain_cases (p.key r) r.data requestedBy s with
    ⟨n, -, -, hrun⟩ | ⟨fault, hrun⟩ | ⟨n, name, -, -, -, hrun⟩
  · exact .inl (by rwa [hrun] at hk)
  · exact .inl (by rwa [hrun] at hk)
  · rw [hrun, Store.lookup_push] at hk
    split at hk
    · rename_i hkey
      exact .inr hkey
    · exact .inl hk

theorem resolveRoots_keys (rs : List Reference) (s : Store β) {k : Key}
    (hk : ((p.resolveRoots rs s).store.lookup k).isSome) :
    (s.lookup k).isSome ∨ ∃ r ∈ rs, k = p.key r.target := by
  induction rs generalizing s with
  | nil => exact .inl hk
  | cons r rs ih =>
    have hfirst := resolve_keys (p := p) none r.target s (k := k)
    have hmem : k = p.key r.target → ∃ r' ∈ r :: rs, k = p.key r'.target :=
      fun h => ⟨r, List.mem_cons_self, h⟩
    unfold resolveRoots at hk
    split at hk
    · rename_i hrun
      rw [hrun] at hfirst
      exact (hfirst hk).imp_right hmem
    · rename_i hrun
      rw [hrun] at hfirst
      rcases ih _ hk with hk | ⟨r', hr', hkey⟩
      · exact (hfirst hk).imp_right hmem
      · exact .inr ⟨r', List.mem_cons_of_mem _ hr', hkey⟩

/-- The keys of gathered roots are those that the sources ask for. -/
theorem gather_keys (sources : List RootSource) (s : Store β) {k : Key}
    (hk : ((p.gather sources s).store.lookup k).isSome) :
    (s.lookup k).isSome ∨ ∃ r ∈ sources.flatMap (·.references p.world), k = p.key r.target := by
  induction sources generalizing s with
  | nil => exact .inl hk
  | cons source sources ih =>
    have hfirst := resolveRoots_keys (p := p) (source.references p.world) s (k := k)
    have hmem : (∃ r ∈ source.references p.world, k = p.key r.target) →
        ∃ r ∈ (source :: sources).flatMap (·.references p.world), k = p.key r.target :=
      fun ⟨r, hr, hkey⟩ => ⟨r, by rw [List.flatMap_cons]; exact List.mem_append_left _ hr, hkey⟩
    unfold gather at hk
    dsimp only at hk
    split at hk
    · exact (hfirst hk).imp_right hmem
    · rcases ih _ hk with hk | ⟨r, hr, hkey⟩
      · exact (hfirst hk).imp_right hmem
      · refine .inr ⟨r, ?_, hkey⟩
        rw [List.flatMap_cons]
        exact List.mem_append_right _ hr

/-- Once gathered, what the sources ask for is there. -/
theorem gather_available {sources : List RootSource}
    (herror : (p.gather sources s).error = none) :
    ∀ r ∈ sources.flatMap (·.references p.world),
      p.Available (p.gather sources s).store r.target := by
  intro r hr
  obtain ⟨source, hsource, hr⟩ := List.mem_flatMap.mp hr
  obtain ⟨root, -, hfor⟩ := (gather_rootsOf herror).asked source hsource r hr
  exact ⟨root.node, hfor.serves⟩

/-- From nothing, a node is there just if its key is one that the sources ask for. -/
theorem lookup_gather_iff {sources : List RootSource} {b : β}
    (herror : (p.gather sources (.empty b)).error = none) {k : Key} :
    ((p.gather sources (.empty b)).store.lookup k).isSome ↔
      ∃ r ∈ sources.flatMap (·.references p.world), k = p.key r.target := by
  constructor
  · intro hk
    exact (gather_keys sources (.empty b) hk).resolve_left (by simp [Store.lookup, Store.empty])
  · rintro ⟨r, hr, rfl⟩
    obtain ⟨n, hserves⟩ := gather_available herror r hr
    exact Option.isSome_iff_exists.mpr ⟨n, hserves.lookup⟩

/-- A node that exists and whose key, which a later store shows, is supplied. -/
theorem query_supplied {S : Set Key} (ht : p.Guide t) (hsupplied : ∀ k ∈ S, p.Supplied t k)
    (hs : p.Follows t s) {n : NodeId} (hn : n ∈ existing s) {s' : Store β} (hsteps : p.Steps s s')
    (hmem : n ∈ nodesOf s' S) :
    ∃ deps s₁, p.graph.query n s = (.ok deps, s₁) ∧ p.Follows t s₁ := by
  obtain ⟨node, hn⟩ := Option.isSome_iff_exists.mp hn
  obtain ⟨body, hn', -⟩ := hsteps.grows.nodes n node hn
  obtain ⟨k, hk, hlookup⟩ := hmem
  obtain rfl := (hs.sound.steps hsteps).key_of_lookup hlookup hn'
  exact query_yields ht hs hn (hsupplied node.key hk)

/-- A walk over keys that the guide supplies does not fail. That the nodes in question exist when
they are asked about need not be known: asking about another does nothing, so it would still be
without a key in the end. -/
theorem drain_yields {reported : MethodId → List Reference} {requests : List Request} {S : Set Key}
    (ht : p.Guide t) (hr : p.Reports reported) (hclosed : p.Closed reported requests S)
    (hsupplied : ∀ k ∈ S, p.Supplied t k) {w : Walk} (hs : p.Follows t s)
    (hw : w.Within (nodesOf (p.graph.drain w s).state S)) :
    (p.graph.drain w s).error = none ∧ p.Follows t (p.graph.drain w s).state := by
  fun_induction Graph.drain p.graph w s with
  | case1 w s hw' => exact ⟨rfl, hs⟩
  | case2 w s q rest hw' hq ih =>
    exact ih hs ⟨hw.marked, fun x hx => hw.pending x (hw' ▸ List.mem_cons_of_mem _ hx), hw.deferred⟩
  | case3 w s q rest hw' hq cause s' hquery =>
    have hmem : q.node ∈ nodesOf s' S := hw.pending q (hw' ▸ List.mem_cons_self)
    by_cases hn : q.node ∈ existing s
    · have hlater := p.query_steps q.node s
      rw [hquery] at hlater
      obtain ⟨deps, s₁, hok, -⟩ := query_supplied ht hsupplied hs hn hlater hmem
      rw [hquery] at hok
      cases hok
    -- The store is still the one that lacks the node, yet it is the last one, which has its key.
    · rw [query_of_not_existing hn] at hquery
      cases hquery
      obtain ⟨k, -, hlookup⟩ := hmem
      exact absurd (hs.sound.existing_of_lookup hlookup) hn
  | case4 w s q rest hw' hq deps s' hquery ih =>
    have hmem := hw.pending q (hw' ▸ List.mem_cons_self)
    have hn : q.node ∈ existing s := by
      by_contra hn
      rw [query_of_not_existing hn] at hquery
      cases hquery
    have hlater := p.query_steps q.node s
    have hgiven := @answered_query _ p s q.node deps
    rw [hquery] at hlater hgiven
    have hrest := p.drain_steps ({ w with pending := rest }.mark q deps) s'
    have hend := hs.sound.steps (hlater.trans hrest)
    obtain ⟨deps', s₁, hok, hs₁⟩ :=
      query_supplied ht hsupplied hs hn (hlater.trans hrest) hmem
    rw [hquery] at hok
    cases hok
    have hrestWithin : Walk.Within _ { w with pending := rest } :=
      ⟨hw.marked, fun x hx => hw.pending x (hw' ▸ List.mem_cons_of_mem _ hx), hw.deferred⟩
    exact ih hs₁ (hrestWithin.mark (hclosed.closedUnder hend hr)
      ((hgiven rfl).grows hrest.grows) hmem)

end Program

namespace Compilation

variable {c : Compilation β} {b : β} {t : Store β}

/-- From nothing, roots that are given by handles that exist are roots that are asked for. -/
theorem HandlesExist.rootedBy (h : c.HandlesExist (.empty b))
    (herror : (c.program.gather c.roots (.empty b)).error = none) :
    c.program.RootedBy (c.roots.flatMap (·.references c.program.world))
      (c.program.gather c.roots (.empty b)).roots (c.program.gather c.roots (.empty b)).store := by
  have hmade := Program.gather_creates (p := c.program) c.roots (.empty b)
  have hsound := (c.program.sound_empty b).steps hmade.steps
  refine (Program.gather_rootsOf herror).rootedBy fun source hsource root hroot => ?_
  obtain ⟨node, hnode⟩ := Option.isSome_iff_exists.mp (h source hsource root hroot)
  have hlookup := (hsound.lookup_iff node.key root.node).mpr ⟨node, hnode, rfl⟩
  obtain ⟨r, hr, hkey⟩ := (Program.lookup_gather_iff herror).mp
    (Option.isSome_iff_exists.mpr ⟨root.node, hlookup⟩)
  exact ⟨r, hr, hkey ▸ hlookup⟩

/-- If one by one the nodes can be taken to the end, so they can in waves, which makes the same
store. -/
theorem outcome_of_drain {s : Store β}
    (h : (c.program.graph.drain (.ofRoots c.tracking (c.program.gather c.roots s).roots)
      (c.program.gather c.roots s).store).error = none) :
    (c.outcome s).error = none ∧ (c.outcome s).state =
      (c.program.graph.drain (.ofRoots c.tracking (c.program.gather c.roots s).roots)
        (c.program.gather c.roots s).store).state := by
  have houtcome : c.outcome s = if c.parallel
      then c.program.graph.drainWaves (.ofRoots c.tracking (c.program.gather c.roots s).roots)
        (c.program.gather c.roots s).store
      else c.program.graph.drain (.ofRoots c.tracking (c.program.gather c.roots s).roots)
        (c.program.gather c.roots s).store := rfl
  rw [houtcome]
  split
  · cases c.program.graph.drainWaves_matches _ _ with
    | through herror hsame =>
      have hstate := congrArg Outcome.state hsame
      exact ⟨herror, hstate⟩
    | stopped q cause hwalk hstopped hstopped' hasked hreach =>
      rw [hstopped'.error] at h
      cases h
  · exact ⟨h, rfl⟩

/-- A run from nothing succeeds if a guide has what its roots ask for and supplies a closed set. -/
theorem outcome_of_guide {reported : MethodId → List Reference} {S : Set Key}
    (ht : c.program.Guide t) (hr : c.program.Reports reported)
    (hav : ∀ r ∈ c.roots.flatMap (·.references c.program.world), c.program.Available t r.target)
    (hclosed : c.program.Closed reported c.requests S)
    (hsupplied : ∀ k ∈ S, c.program.Supplied t k) (hexist : c.HandlesExist (.empty b)) :
    (c.program.gather c.roots (.empty b)).error = none ∧ (c.outcome (.empty b)).error = none ∧
      c.program.Follows t (c.outcome (.empty b)).state := by
  obtain ⟨hgather, hfollows⟩ := Program.gather_yields ht (.empty c.program t b) hav
  have hrooted : ∀ s', (c.program.gather c.roots (.empty b)).store.Grows s' →
      ∀ root ∈ (c.program.gather c.roots (.empty b)).roots,
        root.node ∈ Program.nodesOf s' S := by
    intro s' hgrows root hroot
    obtain ⟨r, hr, hlookup⟩ := (hexist.rootedBy hgather).sourced root hroot
    exact ⟨_, hclosed.root _ (List.mem_map.mpr ⟨r, hr, rfl⟩), hgrows.lookup _ _ hlookup⟩
  have hwalk := Program.drain_yields ht hr hclosed hsupplied hfollows
    (Walk.within_ofRoots c.tracking (hrooted _ (Program.drain_steps _ _).grows))
  obtain ⟨herror, hstate⟩ := outcome_of_drain hwalk.1
  exact ⟨hgather, herror, hstate ▸ hwalk.2⟩

end Compilation

end AheadOfTime
