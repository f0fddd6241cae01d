import AheadOfTime.Proofs.Node.Identity

/-! Answers last. What a question was answered can be read off the store that it left, and off every
store that grows from it (`EdgesFrom.grows`). What can be read off a store is answered from there: all
nodes that the answer leads to are found and the body is at hand, so that no node is made and no
backend is called (`EdgesFrom.answered`, `ConditionalFrom.answered`). -/

namespace AheadOfTime

namespace Program

variable {β α γ : Type} {p : Program β} {s s' : Store β} {n : NodeId}

/-- A request for a node that is there finds it. -/
theorem Serves.found {r : Request} (h : p.Serves r n s) (requestedBy : Option NodeId) :
    (p.resolve requestedBy r).run s = (.ok n, s) := by
  show (p.obtain (p.key r) r.data requestedBy).run s = _
  rw [obtain_existing h.lookup, if_pos h.agrees]

theorem EdgeFor.found {r : Reference} {e : Edge} (h : p.EdgeFor r e s) :
    (p.edge n r).run s = (.ok e, s) := by
  rw [edge, run_bind, h.serves.found, ← h.reason]
  rfl

theorem OverrideFor.found {o : Override} {e : ConditionalEdge} (h : p.OverrideFor o e s) :
    (p.overrideEdge n o).run s = (.ok e, s) := by
  have hcondition : p.Serves (.virtualMethodUse o.declaration) e.condition s := ⟨h.condition, rfl⟩
  have htarget : p.Serves (.methodEntrypoint o.implementation) e.target s := ⟨h.target, rfl⟩
  rw [overrideEdge, run_bind, hcondition.found]
  dsimp only
  rw [run_bind, htarget.found, ← h.reason]
  rfl

theorem mapM_found {f : α → Work β γ} {xs : List α} {ys : List γ}
    (h : List.Forall₂ (fun x y => (f x).run s = (.ok y, s)) xs ys) :
    (xs.mapM f).run s = (.ok ys, s) := by
  induction h with
  | nil => rfl
  | cons hx _ ih =>
    rw [List.mapM_cons, run_bind, hx]
    dsimp only
    rw [run_bind, ih]
    rfl

/-- A node that needs no compiling tells the references of its body. -/
theorem bodyReferences_ready {node : Node} (h : node.Ready) :
    (p.bodyReferences n node).run s = (.ok node.found, s) := by
  unfold bodyReferences Node.found
  split
  · rename_i m hkey
    obtain ⟨found, hfound⟩ := Option.isSome_iff_exists.mp (h m hkey)
    rw [body, hfound, hkey]
    rfl
  · rename_i hkey
    split
    · rename_i m _ hm _
      exact absurd hm (hkey m)
    · rfl

/-- Edges that can be read off a store are the answer, and asking for them changes nothing. -/
theorem EdgesFrom.answered {es : List Edge} (h : p.EdgesFrom s n es) :
    (p.edges n).run s = (.ok es, s) := by
  obtain ⟨node, own, hn, hown, hready, hes⟩ := h
  have hown_es := List.forall₂_take own.length hes
  have hfound_es := List.forall₂_drop own.length hes
  rw [List.take_left] at hown_es
  rw [List.drop_left] at hfound_es
  rw [edges_run hn hown, run_bind, mapM_found (hown_es.imp fun _ _ h => h.found)]
  dsimp only
  rw [run_bind, bodyReferences_ready hready]
  dsimp only
  rw [run_bind, mapM_found (hfound_es.imp fun _ _ h => h.found)]
  show (Except.ok (es.take own.length ++ es.drop own.length), s) = _
  rw [List.take_append_drop]

theorem ConditionalFrom.answered {es : List ConditionalEdge} (h : p.ConditionalFrom s n es) :
    (p.conditional n).run s = (.ok es, s) := by
  obtain ⟨node, overrides, hn, hoverrides, hes⟩ := h
  rw [conditional, run_bind, node_run, hn, Option.elim]
  dsimp only
  rw [hoverrides]
  exact mapM_found (hes.imp fun _ _ h => h.found)

/-- What can be read off a store does not depend on the backend. -/
theorem EdgesFrom.withBackend {es : List Edge} (h : p.EdgesFrom s n es) (backend : Backend β) :
    EdgesFrom { p with backend } s n es := by
  obtain ⟨node, own, hn, hown, hready, hes⟩ := h
  refine ⟨node, own, hn, hown, hready, hes.imp fun _ _ h => ?_⟩
  exact ⟨⟨h.serves.lookup, h.serves.agrees⟩, h.reason⟩

theorem ConditionalFrom.withBackend {es : List ConditionalEdge} (h : p.ConditionalFrom s n es)
    (backend : Backend β) : ConditionalFrom { p with backend } s n es := by
  obtain ⟨node, overrides, hn, hoverrides, hes⟩ := h
  exact ⟨node, overrides, hn, hoverrides, hes.imp fun _ _ h => ⟨h.condition, h.target, h.reason⟩⟩

/-- A question that was answered once is answered alike ever after, whatever is asked in between and
however that goes. The store stays as it is, and it does not matter what a backend would say. -/
theorem answered_ever_after (p : Program β) (s : Store β) (n : NodeId) :
    (∀ es s', (p.edges n).run s = (.ok es, s') →
      ∀ (later : List Operation) (backend : Backend β),
        let t := later.foldl p.perform s'
        (edges { p with backend } n).run t = (.ok es, t)) ∧
    ∀ es s', (p.conditional n).run s = (.ok es, s') →
      ∀ (later : List Operation) (backend : Backend β),
        let t := later.foldl p.perform s'
        (conditional { p with backend } n).run t = (.ok es, t) := by
  constructor
  · intro es s' hrun later backend t
    have hes : p.EdgesFrom s' n es := ((edges_does n s).of_run hrun).2
    exact ((hes.grows (p.foldl_perform_steps s' later).grows).withBackend backend).answered
  · intro es s' hrun later backend t
    have hes : p.ConditionalFrom s' n es := ((conditional_does n s).of_run hrun).2
    exact ((hes.grows (p.foldl_perform_steps s' later).grows).withBackend backend).answered

/-- A backend that compiles what it is asked for first and then nothing. -/
def onceOnly : Backend Nat where
  compile _ _ _ calls :=
    (if calls = 0 then .ok ⟨[0xc3], [⟨.dataBlob "table" [1], "data"⟩]⟩
      else .error (.backend "called again"), calls + 1)

/-- A method that is put into the slot it introduces. -/
def selfOverriding : Program Nat where
  world := .populated [.module ⟨"App", ⟨1, 0, 0, 0⟩, [], "", 0, []⟩, .type ⟨0⟩ "" "Main" 0 none,
    .method ⟨0⟩ "Run" 0 true, .override ⟨0⟩ ⟨⟨0⟩, ⟨0⟩⟩]
  unit := .wholeProgram
  backend := onceOnly
  settings := ⟨.blended, false, []⟩

/-- In between other contents of a blob are asked for, a type that is not there, and the nodes. -/
theorem answered_ever_after_selfOverriding :
    let p := selfOverriding
    let start := p.performAll 0 [.resolve (.methodEntrypoint ⟨0⟩)]
    let later : List Operation := [.resolve (.dataBlob "table" [2]), .obtain (.typeDescriptor ⟨7⟩),
      .conditional (.small 1), .edges (.small 3), .edges (.small 0)]
    ∃ es s' ds s'', (p.edges (.small 0)).run start = (.ok es, s') ∧
      es = [⟨.small 1, "owning type"⟩, ⟨.small 2, "data"⟩] ∧ s'.backend = 1 ∧
      (p.edges (.small 0)).run (later.foldl p.perform s') =
        (.ok es, later.foldl p.perform s') ∧
      (p.conditional (.small 1)).run s' = (.ok ds, s'') ∧
      ds = [⟨.small 0, .small 3, "virtual override"⟩] ∧
      (p.conditional (.small 1)).run (later.foldl p.perform s'') =
        (.ok ds, later.foldl p.perform s'') := by
  intro p start later
  have hedges : ((p.edges (.small 0)).run start).1 =
      .ok [⟨.small 1, "owning type"⟩, ⟨.small 2, "data"⟩] := by decide +kernel
  have hcalls : ((p.edges (.small 0)).run start).2.backend = 1 := by decide +kernel
  have hconditional : ((p.conditional (.small 1)).run ((p.edges (.small 0)).run start).2).1 =
      .ok [⟨.small 0, .small 3, "virtual override"⟩] := by decide +kernel
  exact ⟨_, _, _, _, Prod.ext hedges rfl, rfl, hcalls,
    (answered_ever_after p start (.small 0)).1 _ _ (Prod.ext hedges rfl) later p.backend,
    Prod.ext hconditional rfl, rfl,
    (answered_ever_after p _ (.small 1)).2 _ _ (Prod.ext hconditional rfl) later p.backend⟩

end Program

end AheadOfTime
