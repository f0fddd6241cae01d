import AheadOfTime.Proofs.Compilation.Parallel
import AheadOfTime.Proofs.Node.Universe

/-! Runs come to an end. The keys that a run can ask for are those of its world and of the requests
in its scripts and roots (`Compilation.keys`), whatever happened before. So its walk stays among
handles below their number and those that its roots give, and ends after finitely many turns. -/

namespace AheadOfTime

/-- What a script makes a method refer to. -/
def Script.references : Script → List Reference
  | .compile references => references
  | .fail _ => []

theorem Script.referencesOf_subset (scripts : List (MethodId × Script)) (m : MethodId) :
    referencesOf scripts m ⊆ scripts.flatMap (·.2.references) := by
  intro r hr
  unfold referencesOf at hr
  split at hr
  · rename_i references hscript
    obtain ⟨before, after, hsplit, -⟩ := List.lookup_eq_some_iff.mp hscript
    have hmem : (m, compile references) ∈ scripts := by
      rw [← List.mem_reverse, hsplit]
      simp
    exact List.mem_flatMap.mpr ⟨_, hmem, hr⟩
  · cases hr

theorem Store.AddsOnly.trans {β : Type} {K : Set Key} {s s' s'' : Store β} (h : s.AddsOnly K s')
    (h' : s'.AddsOnly K s'') : s.AddsOnly K s'' :=
  fun k hk => (h' k hk).elim (h k) .inr

namespace Program

variable {β : Type} {p : Program β} {K : Set Key}

theorem resolveRoots_adds {rs : List Reference} (hrs : ∀ r ∈ rs, p.key r.target ∈ K) (s : Store β) :
    s.AddsOnly K (p.resolveRoots rs s).store := by
  induction rs generalizing s with
  | nil => exact fun k hk => .inl hk
  | cons r rs ih =>
    have hfirst := addsOnly_of_reflTransGen (resolve_adds none (hrs r List.mem_cons_self) s).steps
    unfold resolveRoots
    split
    · rename_i hrun
      rwa [hrun] at hfirst
    · rename_i n s₁ hrun
      rw [hrun] at hfirst
      exact hfirst.trans (ih (fun r hr => hrs r (List.mem_cons_of_mem _ hr)) s₁)

theorem gather_adds {sources : List RootSource}
    (h : ∀ source ∈ sources, ∀ r ∈ source.references p.world, p.key r.target ∈ K) (s : Store β) :
    s.AddsOnly K (p.gather sources s).store := by
  induction sources generalizing s with
  | nil => exact fun k hk => .inl hk
  | cons source sources ih =>
    have hfound := resolveRoots_adds (h source List.mem_cons_self) s
    unfold gather
    dsimp only
    split
    · exact hfound
    · exact hfound.trans (ih (fun x hx => h x (List.mem_cons_of_mem _ hx)) _)

end Program

namespace Compilation

variable {β : Type} {c : Compilation β}

/-- The keys that a compilation by scripts can ask for. -/
def keys (c : Compilation CallLog) (scripts : List (MethodId × Script)) : List Key :=
  c.program.allKeys
    (scripts.flatMap (·.2.references) ++ c.roots.flatMap (·.references c.program.world))

/-- The handles of the first slots, and those that are given as roots. -/
def handles (c : Compilation β) (slots : Nat) : Finset NodeId :=
  ((List.range slots).filterMap NodeId.ofIndex? ++
    c.roots.flatMap fun source => source.givenRoots.map (·.node)).toFinset

theorem mem_handles {slots : Nat} {n : NodeId} : n ∈ c.handles slots ↔
    n.index < slots ∨ ∃ source ∈ c.roots, ∃ root ∈ source.givenRoots, root.node = n := by
  have hslot : (∃ i < slots, NodeId.ofIndex? i = some n) ↔ n.index < slots := by
    obtain ⟨j, hj⟩ := n
    constructor
    · rintro ⟨i, hi, h⟩
      unfold NodeId.ofIndex? at h
      split at h <;> cases h
      exact hi
    · intro hlt
      exact ⟨j, hlt, dif_pos hj⟩
  simp [handles, hslot]

variable {c : Compilation CallLog} {x : Session CallLog} {scripts : List (MethodId × Script)}

theorem encloses_keys (hw : c.program.world.WellFormed)
    (hbackend : c.program.backend = Script.backend scripts) :
    c.program.Encloses {k | k ∈ c.keys scripts} := by
  refine c.program.encloses_allKeys hw fun {m b body b'} hb r hr => ?_
  rw [reports_script hbackend hb] at hr
  exact List.mem_append_left _ (Script.referencesOf_subset scripts m hr)

theorem confined_gather (h : c.program.Confined (c.keys scripts) x.store) :
    c.program.Confined (c.keys scripts) (c.program.gather c.roots x.store).store := by
  refine h.steps (Program.gather_creates c.roots x.store).steps (Program.gather_adds ?_ _)
  intro source hsource r hr
  refine List.mem_append_right _ (List.mem_map.mpr ⟨r, List.mem_append_right _ ?_, rfl⟩)
  exact List.mem_flatMap.mpr ⟨source, hsource, hr⟩

theorem confined_run (henc : c.program.Encloses {k | k ∈ c.keys scripts})
    (h : c.program.Confined (c.keys scripts) x.store) :
    c.program.Confined (c.keys scripts) (c.run x).2.store := by
  have hgathered := confined_gather h
  cases hgather : (c.program.gather c.roots x.store).error with
  | some e => rwa [run_of_gather_error hgather]
  | none =>
    rw [run_eq hgather, conclude_store]
    exact Graph.walk_keeps (Program.Confined.query henc) c.parallel hgathered

theorem confined_runs (henc : c.program.Encloses {k | k ∈ c.keys scripts})
    (h : c.program.Confined (c.keys scripts) x.store) (runs : Nat) :
    c.program.Confined (c.keys scripts) ((fun x => (c.run x).2)^[runs] x).store := by
  induction runs generalizing x with
  | zero => exact h
  | succ runs ih => exact ih (confined_run henc h)

/-- Roots are handles of slots, or given. -/
theorem within_handles (h : c.program.Confined (c.keys scripts) x.store)
    (hgather : (c.program.gather c.roots x.store).error = none) :
    (Walk.ofRoots c.tracking (c.program.gather c.roots x.store).roots).Within
      (c.handles (c.keys scripts).length : Set NodeId) := by
  have hgathered := confined_gather h
  refine Walk.within_ofRoots c.tracking fun root hroot => mem_handles.mpr ?_
  obtain ⟨source, hsource, hgiven | ⟨r, -, hfor⟩⟩ :=
    (Program.gather_rootsOf hgather).sourced root hroot
  · exact .inr ⟨source, hsource, root, hgiven, rfl⟩
  · exact .inl (hgathered.index_lt hfor.serves.lookup)

/-- The walk of a run ends after finitely many turns, on handles that are known beforehand. -/
theorem outcome_ends (henc : c.program.Encloses {k | k ∈ c.keys scripts})
    (h : c.program.Confined (c.keys scripts) x.store)
    (hgather : (c.program.gather c.roots x.store).error = none) :
    ∃ k, c.program.graph.Ends
      (fun n deps => c.program.graph.Told (c.program.Confined (c.keys scripts)) n (.ok deps))
      (c.handles (c.keys scripts).length) c.parallel
      (.start (.ofRoots c.tracking (c.program.gather c.roots x.store).roots)
        (c.program.gather c.roots x.store).store) k (c.outcome x.store) := by
  refine Graph.walk_ends (Program.Confined.query henc) ⟨fun _ htold e he => ?_,
    fun _ htold e he _ => ?_⟩ (confined_gather h) (within_handles h hgather) c.parallel
  · exact mem_handles.mpr (.inl ((Program.Confined.told henc htold).1 e he))
  · exact mem_handles.mpr (.inl ((Program.Confined.told henc htold).2 e he))

end Compilation

theorem Settings.compilation_program {β : Type} {s : Settings} {world : World}
    {unit : CompilationUnit} {backend : Backend β} {c : Compilation β}
    (h : s.compilation world unit backend = .ok c) :
    c.program.world = world ∧ c.program.backend = backend := by
  obtain ⟨os, -, rfl⟩ := Except.map_eq_ok.mp h
  exact ⟨rfl, rfl⟩

/-- Every walk comes to an end over a graph whose answers, whatever state they depend on, stay
inside a finite set of nodes: each turn marks a node that was not marked, drops a mark, or is the
last. So does the walk of every run of a compilation by scripts that settings describe, however
often it has run before: whatever was asked of its program, a question about a node asks for keys of
a finite list, which world, scripts and roots alone determine, and only these get nodes. -/
theorem compiling_ends :
    (∀ {σ ε : Type} (g : Graph σ ε) (I : σ → Prop) (S : Finset NodeId), g.Keeps I →
      ClosedUnder (fun n deps => g.Told I n (.ok deps)) S →
      ∀ (inWaves : Bool) (w : Walk) (s : σ), I s → w.Within S →
        ∃ k, g.Ends (fun n deps => g.Told I n (.ok deps)) S inWaves (.start w s) k
          (g.walk inWaves w s)) ∧
    ∀ (ds : List Declaration) (unit : CompilationUnit) (scripts : List (MethodId × Script))
      (settings : Settings) (c : Compilation CallLog),
      settings.compilation (.populated ds) unit (Script.backend scripts) = .ok c →
      (∀ (os : List Operation) (n : NodeId) (o : Operation), o = .edges n ∨ o = .conditional n →
        ∀ r ∈ c.program.asked (c.program.performAll .empty (os ++ [o])) o,
          c.program.key r ∈ c.keys scripts) ∧
      ∀ (runs : Nat) (files : Files.Tree) (transcript : Transcript),
        let x := (fun x => (c.run x).2)^[runs] ⟨.empty .empty, files, transcript⟩
        let gathered := c.program.gather c.roots x.store
        (∀ k, ((c.run x).2.store.lookup k).isSome → k ∈ c.keys scripts) ∧
        ((∃ e, gathered.error = some e ∧ (c.run x).1 = .error (.roots e)) ∨
          gathered.error = none ∧ c.run x = c.conclude x (c.outcome x.store) ∧
          (c.outcome x.store).walk.marked.Nodup ∧
          ∃ k, c.program.graph.Ends
            (fun n deps => c.program.graph.Told (c.program.Confined (c.keys scripts)) n (.ok deps))
            (c.handles (c.keys scripts).length) c.parallel
            (.start (.ofRoots c.tracking gathered.roots) gathered.store) k (c.outcome x.store)) := by
  refine ⟨fun g I S hI hS inWaves w s hs hwithin => Graph.walk_ends hI hS hs hwithin inWaves,
    fun ds unit scripts settings c h => ?_⟩
  obtain ⟨hworld, hbackend⟩ := Settings.compilation_program h
  have hw : c.program.world.WellFormed := hworld ▸ World.wellFormed_populated ds
  have henc := Compilation.encloses_keys hw hbackend
  refine ⟨fun os n o ho => ?_, ?_⟩
  · have hs := c.program.performAll_sound .empty (os ++ [o])
    rcases ho with rfl | rfl
    · exact henc.asked_edges hs
    · exact henc.asked_conditional _
  · intro runs files transcript x gathered
    have hx : c.program.Confined (c.keys scripts) x.store :=
      Compilation.confined_runs henc (c.program.confined_empty _ .empty) runs
    refine ⟨(Compilation.confined_run henc hx).keys, ?_⟩
    cases hgather : gathered.error with
    | some e => exact .inl ⟨e, rfl, by rw [Compilation.run_of_gather_error hgather]⟩
    | none =>
      obtain ⟨k, hends⟩ := Compilation.outcome_ends henc hx hgather
      have hstart := (Walk.complete_ofRoots (fun _ _ => True) c.tracking gathered.roots).nodup
      exact .inr ⟨rfl, Compilation.run_eq hgather, hends.nodup hstart, k, hends⟩

/-- A graph that leads on only every other time it is asked. -/
def alternating (n m : NodeId) : Graph Bool String where
  name _ n := n.label
  edges _ s := (.ok (if s then [⟨m, "edge"⟩] else []), !s)
  conditional _ s := (.ok [⟨n, m, "back"⟩], s)

/-- A method and an instance of a generic one that call each other. -/
def callingBack : List Declaration :=
  [.module ⟨"App", ⟨1, 0, 0, 0⟩, [], "", 0, []⟩, .type ⟨0⟩ "" "Main" 0 none,
    .method ⟨0⟩ "Map" 1 false, .methodInstance ⟨0⟩ [⟨0⟩], .method ⟨0⟩ "Run" 0 false]

def callsBack : List (MethodId × Script) :=
  [(⟨1⟩, .compile [⟨.methodEntrypoint ⟨2⟩, "call"⟩]),
    (⟨2⟩, .compile [⟨.methodEntrypoint ⟨1⟩, "call"⟩])]

def callingBackSettings : Settings where
  transcript := .silent
  tracking := .first
  roots := [.entryPoint ⟨2⟩]
  optimization := .blended
  debugInfo := false
  backendOptions := []
  dependencyLog := none
  metadataLog := none
  parallel := false

def callingBackOnce : Compilation CallLog where
  program := ⟨.populated callingBack, .wholeProgram, Script.backend callsBack,
    ⟨.blended, false, []⟩⟩
  tracking := .first
  roots := [.entryPoint ⟨2⟩]
  metadataLog := none
  dependencyLog := none
  parallel := false

theorem compiling_ends_callingBack :
    let S : Finset NodeId := {.small 0, .small 1}
    let g := alternating (.small 0) (.small 1)
    let w := (Walk.start .first).addRoot (.small 0) "root"
    let c := callingBackOnce
    let gathered := c.program.gather c.roots (.empty .empty)
    (∃ k, g.Ends (fun n deps => g.Told (fun _ => True) n (.ok deps)) S true (.start w true) k
      (g.walk true w true)) ∧
    callingBackSettings.compilation (.populated callingBack) .wholeProgram
      (Script.backend callsBack) = .ok c ∧
    (c.outcome (.empty .empty)).walk.marked.length = 4 ∧
    ∃ k, c.program.graph.Ends
      (fun n deps => c.program.graph.Told (c.program.Confined (c.keys callsBack)) n (.ok deps))
      (c.handles (c.keys callsBack).length) false
      (.start (.ofRoots .first gathered.roots) gathered.store) k (c.outcome (.empty .empty)) := by
  intro S g w c gathered
  have htold (n : NodeId) (deps : Dependencies) (h : g.Told (fun _ => True) n (.ok deps)) :
      (∀ e ∈ deps.edges, e.target ∈ S) ∧ ∀ e ∈ deps.conditional, e.target ∈ S := by
    obtain ⟨s, -, hq⟩ := h
    cases hq
    cases s <;> simp [S]
  have hw : w.Within S :=
    (Walk.within_start _ .first).addRoot (Finset.mem_coe.mpr (by simp [S])) "root"
  have hc : callingBackSettings.compilation (.populated callingBack) .wholeProgram
      (Script.backend callsBack) = .ok c := rfl
  have hgather : (callingBackOnce.program.gather callingBackOnce.roots (.empty .empty)).error =
      none := by cbv
  have hmarked : (callingBackOnce.outcome (.empty .empty)).walk.marked.length = 4 := by cbv
  refine ⟨compiling_ends.1 g (fun _ => True) S (fun _ _ _ => trivial)
    ⟨fun _ h => (htold _ _ h).1, fun _ h e he _ => (htold _ _ h).2 e he⟩ true w true trivial hw,
    hc, hmarked, ?_⟩
  rcases ((compiling_ends.2 _ _ _ _ c hc).2 0 ⟨[], []⟩ .silent).2 with
    ⟨e, he, -⟩ | ⟨-, -, -, hends⟩
  · cases hgather.symm.trans he
  · exact hends

end AheadOfTime
