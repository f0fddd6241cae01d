import AheadOfTime.Proofs.Compilation.Expansion
import AheadOfTime.Proofs.Node.Causes
import Mathlib

/-! What the error of a run names. At a root nobody has asked, and nobody is named. In the walk the
cause names the node that the error names, unless a source has given a handle that has no node when
the walk begins; where all handles have one, the walk asks about nodes that exist, and the errors
that name nobody are out of reach (`errors_name_their_cause`). -/

namespace AheadOfTime

variable {β : Type}

theorem Walk.ahead_ofRoots {S : Set NodeId} (level : TrackingLevel) {roots : List Root}
    (h : ∀ r ∈ roots, r.node ∈ S) : (ofRoots level roots).Ahead S := by
  induction roots using List.reverseRecOn with
  | nil => exact ⟨by simp [ofRoots, start], by simp [ofRoots, start]⟩
  | append_singleton roots r ih =>
    have hold := ih fun r' hr' => h r' (List.mem_append_left _ hr')
    rw [ofRoots_concat, addRoot, enqueue_eq]
    refine ⟨fun p hp => ?_, hold.deferred⟩
    rcases List.mem_append.mp hp with hp | hp
    · exact hold.pending p hp
    · rw [List.mem_singleton.mp (List.mem_filter.mp hp).1]
      exact h r (List.mem_append_right _ (List.mem_singleton.mpr rfl))

namespace Program

variable {p : Program β} {s : Store β} {e : NodeError}

/-- An error of a request that no node has made. -/
def Unasked (e : NodeError) : Prop :=
  ∃ key fault, fault ≠ .foreignNode ∧ e = .unresolved key none fault

theorem resolveRoots_error {rs : List Reference} (h : (p.resolveRoots rs s).error = some e) :
    Unasked e := by
  induction rs generalizing s with
  | nil => cases h
  | cons r rs ih =>
    unfold resolveRoots at h
    split at h
    · rename_i e' s' hrun
      obtain rfl := Option.some.inj h
      obtain ⟨fault, hfault, rfl⟩ := obtain_error (congrArg Prod.fst hrun)
      exact ⟨_, fault, hfault, rfl⟩
    · exact ih h

theorem gather_error {sources : List RootSource} (h : (p.gather sources s).error = some e) :
    Unasked e := by
  induction sources generalizing s with
  | nil => cases h
  | cons source sources ih =>
    unfold gather at h
    dsimp only at h
    split at h
    · exact resolveRoots_error h
    · exact ih h

end Program

namespace Compilation

variable {c : Compilation β} {x : Session β}

theorem walk_error_about (hx : c.program.Sound x.store)
    (hgather : (c.program.gather c.roots x.store).error = none) {e : WalkError NodeError}
    (he : (c.outcome x.store).error = some e) :
    e.cause.About e.node ∨ ∃ source ∈ c.roots, ∃ root ∈ source.givenRoots,
      root.node ∉ Program.existing (c.program.gather c.roots x.store).store ∧
        e.cause = .unresolved root.node.label none .foreignNode := by
  obtain ⟨n, s, hs, hquery, -, ⟨hnode, hcause, source, hsource, root, hroot, rfl⟩ |
    ⟨node, -, hnode, -, hname⟩⟩ := walk_fails_at hx hgather he
  · have hmissing : root.node ∉ Program.existing s := by simp [Program.existing, hnode]
    exact .inr ⟨source, hsource, root, hroot,
      fun h => hmissing (Program.existing_mono (Program.Steps.grows hs) h), hcause⟩
  · have hgathered := hx.steps (Program.gather_creates (p := c.program) c.roots x.store).steps
    rw [hname]
    exact .inl (Program.query_error (hgathered.steps hs) hnode hquery)

/-- The walk of a run, with an account of what it asks. -/
def notedOutcome (c : Compilation β) (s : Store β) :
    Outcome (List (NodeId × Store β) × Store β) NodeError :=
  c.program.graph.noted.walk c.parallel (.ofRoots c.tracking (c.program.gather c.roots s).roots)
    ([], (c.program.gather c.roots s).store)

theorem outcome_eq_notedOutcome (c : Compilation β) (s : Store β) :
    c.outcome s = (c.notedOutcome s).map Prod.snd :=
  c.program.graph.noted_over.walk c.parallel _ ([], _)

/-- If all given handles have nodes, a walk asks about nodes that can be asked. -/
theorem HandlesExist.askable (hexist : c.HandlesExist x.store) (hx : c.program.Sound x.store)
    (hgather : (c.program.gather c.roots x.store).error = none) :
    ∀ q ∈ (c.notedOutcome x.store).state.1, c.program.Askable q.1 q.2 := by
  have hgathered := hx.steps (Program.gather_creates (p := c.program) c.roots x.store).steps
  have hahead := Walk.ahead_ofRoots c.tracking (hexist.roots hx hgather)
  intro q hq
  obtain ⟨hsound, hknown⟩ :=
    c.program.familiar_existing.noted_walk c.parallel hgathered hahead q hq
  exact hsound.askable hknown

/-- The node of the method is there before the run. -/
def stuckBefore : Store CallLog :=
  stuck.program.performAll .empty [.resolve (.methodEntrypoint ⟨0⟩)]

end Compilation

end AheadOfTime
