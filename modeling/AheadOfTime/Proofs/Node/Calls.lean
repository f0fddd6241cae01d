import AheadOfTime.Codegen.Scripted
import AheadOfTime.Proofs.Node.Answers
import Mathlib.Data.List.Nodup

/-! How often the backend is called. Only a question about the node of a method calls it, once and
for that method, and not if the node has its body already. Since a body is only there if the
backend was called for it, a node that was never asked has none; so a list of questions in which no
node occurs twice calls the backend at most once for each method (`Tally`), and if all of them are
answered, just for the methods of the nodes that were asked (`Tally.Full`). -/

namespace AheadOfTime

variable {β : Type}

/-- The method that a node of a key compiles. -/
def Key.code? : Key → Option MethodId
  | .methodEntrypoint m => some m
  | _ => none

theorem Key.code?_eq_some {k : Key} {m : MethodId} :
    k.code? = some m ↔ k = .methodEntrypoint m := by
  cases k <;> simp [code?]

/-- The state of a backend tells the methods that it was called for, in order. -/
def Backend.Logs (b : Backend β) (calls : β → List MethodId) : Prop :=
  ∀ w settings m state, calls (b.compile w settings m state).2 = calls state ++ [m]

theorem Backend.Logs.calls_eq {b : Backend β} {calls : β → List MethodId} (h : b.Logs calls)
    {w : World} {settings : CodeSettings} {m : MethodId} {state state' : β}
    {answer : Except BackendError MethodBody}
    (hb : b.compile w settings m state = (answer, state')) : calls state' = calls state ++ [m] := by
  rw [← h w settings m state, hb]

theorem Script.logs_backend (scripts : List (MethodId × Script)) :
    (Script.backend scripts).Logs CallLog.calls :=
  fun _ _ _ _ => rfl

namespace Store

/-- The method that the node with a handle compiles, if there is such a node. -/
def code? (s : Store β) (n : NodeId) : Option MethodId := (s.node? n).bind (·.key.code?)

theorem code?_eq_some {s : Store β} {n : NodeId} {m : MethodId} :
    s.code? n = some m ↔ ∃ node, s.node? n = some node ∧ node.key = .methodEntrypoint m := by
  simp [code?, Option.bind_eq_some_iff, Key.code?_eq_some]

theorem code?_of_node {s : Store β} {n : NodeId} {node : Node} (hn : s.node? n = some node) :
    s.code? n = node.key.code? := by
  rw [code?, hn, Option.bind_some]

variable {s s' : Store β} {n : NodeId}

theorem Grows.code?_eq (h : s.Grows s') {node : Node} (hn : s.node? n = some node) :
    s'.code? n = s.code? n := by
  obtain ⟨body, hn', -⟩ := h.nodes n node hn
  rw [code?_of_node hn, code?_of_node hn']

theorem Grows.code? (h : s.Grows s') {m : MethodId} (hm : s.code? n = some m) :
    s'.code? n = some m := by
  obtain ⟨node, hn, -⟩ := code?_eq_some.mp hm
  rw [h.code?_eq hn, hm]

theorem Grows.filterMap_code? (h : s.Grows s') (ns : List NodeId) :
    (ns.filterMap s.code?).Sublist (ns.filterMap s'.code?) := by
  induction ns with
  | nil => exact .refl _
  | cons n ns ih =>
    cases hm : s.code? n with
    | none =>
      rw [List.filterMap_cons_none hm]
      refine ih.trans ?_
      exact List.Sublist.filterMap _ (List.sublist_cons_self n ns)
    | some m =>
      rw [List.filterMap_cons_some hm, List.filterMap_cons_some (h.code? hm)]
      exact ih.cons_cons m

theorem Grows.filterMap_code?_singleton (h : s.Grows s') {node : Node}
    (hn : s.node? n = some node) : [n].filterMap s'.code? = node.key.code?.toList := by
  rw [List.filterMap_cons, h.code?_eq hn, code?_of_node hn]
  cases node.key.code? <;> rfl

end Store

namespace Program

variable {p : Program β} {s s' : Store β} {calls : β → List MethodId}

section Work

variable {α γ : Type} {ms : List MethodId}

/-- The methods that work calls the backend for: some of those listed, in this order, and all of
them if the work succeeds. -/
structure Calls (calls : β → List MethodId) (ms : List MethodId) (s : Store β) (x : Work β α) :
    Prop where
  some : ∃ called, called.Sublist ms ∧ calls (x.run s).2.backend = calls s.backend ++ called
  all : ∀ a, (x.run s).1 = .ok a → calls (x.run s).2.backend = calls s.backend ++ ms

theorem Calls.of_backend_eq {x : Work β α} (h : (x.run s).2.backend = s.backend) :
    Calls calls [] s x := by
  refine ⟨⟨[], .refl _, ?_⟩, fun _ _ => ?_⟩ <;> rw [h, List.append_nil]

theorem Calls.pure (a : α) : Calls calls [] s (pure a) := .of_backend_eq rfl

theorem Calls.bind {x : Work β α} {f : α → Work β γ} {later : List MethodId}
    (hx : Calls calls ms s x)
    (hf : ∀ a s', x.run s = (.ok a, s') → Calls calls later s' (f a)) :
    Calls calls (ms ++ later) s (x >>= f) := by
  obtain ⟨⟨called, hcalled, hbackend⟩, hall⟩ := hx
  constructor <;> rw [run_bind] <;> rcases hrun : x.run s with ⟨e | a, s'⟩
  · rw [hrun] at hbackend
    exact ⟨called, hcalled.trans (List.sublist_append_left ms later), hbackend⟩
  · obtain ⟨called', hcalled', hbackend'⟩ := (hf a s' hrun).some
    rw [hrun] at hall
    refine ⟨ms ++ called', hcalled'.append_left ms, ?_⟩
    rw [hbackend', hall a rfl, List.append_assoc]
  · rintro _ ⟨⟩
  · intro b hb
    rw [hrun] at hall
    rw [(hf a s' hrun).all b hb, hall a rfl, List.append_assoc]

/-- Work that calls the backend may be preceded by work that does not. -/
theorem Calls.after {x : Work β α} {f : α → Work β γ} (hx : Calls calls [] s x)
    (hf : ∀ a s', x.run s = (.ok a, s') → Calls calls ms s' (f a)) : Calls calls ms s (x >>= f) :=
  hx.bind hf

theorem Calls.before {x : Work β α} {f : α → Work β γ} (hx : Calls calls ms s x)
    (hf : ∀ a s', Calls calls [] s' (f a)) : Calls calls ms s (x >>= f) := by
  have h := hx.bind fun a s' _ => hf a s'
  rwa [List.append_nil] at h

theorem Create.backend (h : p.Create s s') : s'.backend = s.backend := by
  obtain ⟨-, -, -⟩ := h
  rfl

theorem Creates.backend (h : p.Creates s s') : s'.backend = s.backend := by
  induction h with
  | refl => rfl
  | tail _ hc ih => rw [hc.backend, ih]

/-- Making nodes does not call the backend. -/
theorem Does.calls_nil {x : Work β α} {Q : α → Store β → Prop} (h : Does p.Create s x Q) :
    Calls calls [] s x :=
  .of_backend_eq (Creates.backend h.steps)

end Work

section Query

variable {n : NodeId} {node : Node}

theorem ask_calls {α : Type} (k : Key) (r : Except WorldError α) (s : Store β) :
    Calls calls [] s (p.ask k r) :=
  Does.calls_nil (p := p) (ask_does k r s)

theorem runBackend_calls (hlogs : p.backend.Logs calls) (name : String) (m : MethodId)
    (s : Store β) : Calls calls [m] s (p.runBackend name m) := by
  rcases hb : p.backend.compile p.world p.settings m s.backend with ⟨cause | body, b⟩
  · have hrun : (p.runBackend name m).run s =
        (.error (.codegen name cause), { s with backend := b }) := by
      rw [runBackend, ExceptT.run_mk, hb]
    constructor <;> rw [hrun]
    · exact ⟨[m], .refl _, hlogs.calls_eq hb⟩
    · rintro _ ⟨⟩
  · have hrun : (p.runBackend name m).run s = (.ok body, { s with backend := b }) := by
      rw [runBackend, ExceptT.run_mk, hb]
    constructor <;> rw [hrun]
    · exact ⟨[m], .refl _, hlogs.calls_eq hb⟩
    · exact fun _ _ => hlogs.calls_eq hb

theorem body_calls (hlogs : p.backend.Logs calls) (hbody : node.body = none) (m : MethodId)
    (s : Store β) : Calls calls [m] s (p.body n node m) := by
  unfold body
  rw [hbody]
  exact (runBackend_calls hlogs node.name m s).before fun _ _ => .of_backend_eq rfl

theorem bodyReferences_calls (hlogs : p.backend.Logs calls) (hbody : node.body = none)
    (s : Store β) : Calls calls node.key.code?.toList s (p.bodyReferences n node) := by
  unfold bodyReferences
  split
  · rename_i m hkey
    rw [hkey]
    exact (body_calls hlogs hbody m s).before fun _ _ => .pure _
  · rename_i hkey
    have hnone : node.key.code? = none := by
      rw [Option.eq_none_iff_forall_ne_some]
      exact fun m hm => hkey m (Key.code?_eq_some.mp hm)
    rw [hnone]
    exact .pure _

theorem mapM_edge_calls (n : NodeId) (rs : List Reference) (s : Store β) :
    Calls calls [] s (rs.mapM (p.edge n)) :=
  (Does.mapM (edge_does n) (fun h => EdgeFor.grows (Step.create h).grows) rs s).calls_nil

theorem mapM_overrideEdge_calls (n : NodeId) (overrides : List Override) (s : Store β) :
    Calls calls [] s (overrides.mapM (p.overrideEdge n)) :=
  (Does.mapM (overrideEdge_does n) (fun h => OverrideFor.grows (Step.create h).grows) overrides
    s).calls_nil

theorem edges_calls (hlogs : p.backend.Logs calls) (hn : s.node? n = some node)
    (hbody : node.body = none) : Calls calls node.key.code?.toList s (p.edges n) := by
  refine (Does.calls_nil (p := p) (node_does n s)).after fun node' s₁ hrun => ?_
  rw [node_run, hn] at hrun
  cases hrun
  refine (ask_calls _ _ s).after fun own s₁ _ => ?_
  refine (mapM_edge_calls n own s₁).after fun ownEdges s₂ _ => ?_
  refine (bodyReferences_calls hlogs hbody s₂).before fun found s₃ => ?_
  exact (mapM_edge_calls n found s₃).after fun foundEdges s₄ _ => .pure _

theorem conditional_calls (n : NodeId) (s : Store β) : Calls calls [] s (p.conditional n) := by
  refine (Does.calls_nil (p := p) (node_does n s)).after fun node s₁ _ => ?_
  refine (ask_calls _ _ s₁).after fun overrides s₂ _ => ?_
  exact mapM_overrideEdge_calls n overrides s₂

theorem query_calls (hlogs : p.backend.Logs calls) (hn : s.node? n = some node)
    (hbody : node.body = none) :
    (∃ called, called.Sublist node.key.code?.toList ∧
      calls (p.graph.query n s).2.backend = calls s.backend ++ called) ∧
    ∀ deps, (p.graph.query n s).1 = .ok deps →
      calls (p.graph.query n s).2.backend = calls s.backend ++ node.key.code?.toList := by
  rw [query_eq_run]
  have h := (edges_calls hlogs hn hbody).before fun edges s₁ =>
    (conditional_calls (p := p) n s₁).after fun conditional s₂ _ =>
      Calls.pure (Dependencies.mk edges conditional)
  exact ⟨h.some, h.all⟩

end Query

/-- Compiled bodies are of methods that the backend was called for. -/
def Logged (calls : β → List MethodId) (s : Store β) : Prop :=
  ∀ n node, s.node? n = some node → node.body ≠ none → ∃ m, s.code? n = some m ∧ m ∈ calls s.backend

theorem logged_empty (calls : β → List MethodId) (b : β) : Logged calls (.empty b) :=
  fun n node hn => by simp [Store.node?, Store.empty] at hn

/-- Only a body that was not there before has to be accounted for. -/
theorem Logged.grow (h : Logged calls s) (hg : s.Grows s')
    (hcalls : calls s.backend ⊆ calls s'.backend)
    (hnew : ∀ n node, s'.node? n = some node → node.body ≠ none →
      (∃ old, s.node? n = some old ∧ old.body ≠ none) ∨
        ∃ m, s'.code? n = some m ∧ m ∈ calls s'.backend) : Logged calls s' := by
  intro n node hn hbody
  rcases hnew n node hn hbody with ⟨old, hold, hbody⟩ | hcompiled
  · obtain ⟨m, hm, hcall⟩ := h n old hold hbody
    exact ⟨m, hg.code? hm, hcalls hcall⟩
  · exact hcompiled

theorem Logged.step (hlogs : p.backend.Logs calls) (h : Logged calls s) (hstep : p.Step s s') :
    Logged calls s' := by
  have hg := hstep.grows
  cases hstep with
  | create hc =>
    refine h.grow hg (by rw [hc.backend]; exact List.Subset.refl _) fun n node hn hbody => ?_
    obtain ⟨-, hsize, -⟩ := hc
    rcases (Store.node?_push hsize).mp hn with hold | ⟨-, rfl⟩
    · exact .inl ⟨node, hold, hbody⟩
    · exact absurd rfl hbody
  | @compile n node m body b hn hkey hnone hb =>
    have hcalls := hlogs.calls_eq hb
    refine h.grow hg (hcalls ▸ List.subset_append_left _ _) fun n' x hx hbody => ?_
    -- the one body that is new is that of the method the backend was just called for
    by_cases hn' : n' = n
    · subst hn'
      refine .inr ⟨m, hg.code? (Store.code?_eq_some.mpr ⟨node, hn, hkey⟩), ?_⟩
      show m ∈ calls b
      rw [hcalls]
      exact List.mem_append_right _ (List.mem_singleton.mpr rfl)
    · rw [Store.node?_setBody] at hx
      obtain ⟨old, hold, rfl⟩ := Option.map_eq_some_iff.mp hx
      rw [if_neg hn'] at hbody
      exact .inl ⟨old, hold, hbody⟩
  | @fail n node m cause b hn hkey hnone hb =>
    have hcalls := hlogs.calls_eq hb
    refine h.grow hg (hcalls ▸ List.subset_append_left _ _) fun n' x hx hbody => ?_
    exact .inl ⟨x, hx, hbody⟩

theorem Logged.steps (hlogs : p.backend.Logs calls) (h : Logged calls s) (hsteps : p.Steps s s') :
    Logged calls s' := by
  induction hsteps with
  | refl => exact h
  | tail _ hstep ih => exact ih.step hlogs hstep

/-- No two nodes compile the same method. -/
theorem Sound.code_inj (hs : p.Sound s) {n n' : NodeId} {m : MethodId} (hn : s.code? n = some m)
    (hn' : s.code? n' = some m) : n = n' := by
  obtain ⟨x, hx, hkey⟩ := Store.code?_eq_some.mp hn
  obtain ⟨y, hy, hkey'⟩ := Store.code?_eq_some.mp hn'
  exact hs.handle_inj hx hy (hkey.trans hkey'.symm)

/-- What there is to say of a store after some questions. -/
structure Tally (p : Program β) (calls : β → List MethodId) (asked : List NodeId) (s : Store β) :
    Prop where
  sound : p.Sound s
  logged : Logged calls s
  called : (calls s.backend).Sublist (asked.filterMap s.code?)

namespace Tally

variable {asked ns : List NodeId} {n : NodeId}

theorem creates (h : p.Tally calls asked s) (hlogs : p.backend.Logs calls)
    (hmade : p.Creates s s') : p.Tally calls asked s' := by
  refine ⟨h.sound.steps hmade.steps, h.logged.steps hlogs hmade.steps, ?_⟩
  rw [hmade.backend]
  exact h.called.trans (hmade.grows.filterMap_code? asked)

theorem empty (p : Program β) {b : β} (hb : calls b = []) : p.Tally calls [] (.empty b) :=
  ⟨p.sound_empty b, logged_empty calls b, by rw [Store.empty, hb]; exact .refl _⟩

/-- A node that was not asked has no body: the backend was called for no other than those asked. -/
theorem body_eq_none (h : p.Tally calls asked s) (hn : n ∉ asked) {node : Node}
    (hnode : s.node? n = some node) : node.body = none := by
  by_contra hbody
  obtain ⟨m, hm, hcall⟩ := h.logged n node hnode hbody
  obtain ⟨a, ha, hma⟩ := List.mem_filterMap.mp (h.called.subset hcall)
  exact hn (h.sound.code_inj hm hma ▸ ha)

/-- The methods of distinct nodes are distinct. -/
theorem nodup (h : p.Tally calls asked s) (hasked : asked.Nodup) : (calls s.backend).Nodup :=
  (List.Nodup.filterMap (fun _ _ _ => h.sound.code_inj) hasked).sublist h.called

theorem query (h : p.Tally calls asked s) (hlogs : p.backend.Logs calls) (hn : n ∉ asked) :
    p.Tally calls (asked ++ [n]) (p.graph.query n s).2 := by
  have hsteps := p.query_steps n s
  have hg := hsteps.grows
  refine ⟨h.sound.steps hsteps, h.logged.steps hlogs hsteps, ?_⟩
  rw [List.filterMap_append]
  have hbefore := h.called.trans (hg.filterMap_code? asked)
  cases hnode : s.node? n with
  | none =>
    rw [query_of_not_exists hnode] at hbefore ⊢
    exact hbefore.trans (List.sublist_append_left _ _)
  | some node =>
    obtain ⟨⟨called, hcalled, hbackend⟩, -⟩ :=
      query_calls hlogs hnode (h.body_eq_none hn hnode)
    rw [hbackend, hg.filterMap_code?_singleton hnode]
    exact hbefore.append hcalled

theorem queryAll (h : p.Tally calls asked s) (hlogs : p.backend.Logs calls)
    (hns : (asked ++ ns).Nodup) : p.Tally calls (asked ++ ns) (p.graph.queryAll ns s).2 := by
  induction ns generalizing asked s with
  | nil => rwa [List.append_nil]
  | cons n ns ih =>
    have hn : n ∉ asked := fun hmem =>
      (List.nodup_append.mp hns).2.2 n hmem n List.mem_cons_self rfl
    rw [List.append_cons] at hns ⊢
    exact ih (h.query hlogs hn) hns

/-- After questions that were all answered. -/
structure Full (p : Program β) (calls : β → List MethodId) (asked : List NodeId) (s : Store β) :
    Prop extends p.Tally calls asked s where
  nodes : ∀ n ∈ asked, ∃ node, s.node? n = some node
  all : calls s.backend = asked.filterMap s.code?

theorem full_nil (h : p.Tally calls [] s) : Full p calls [] s :=
  { h with
    nodes := fun _ hn => absurd hn List.not_mem_nil
    all := List.sublist_nil.mp h.called }

theorem Full.query (h : Full p calls asked s) (hlogs : p.backend.Logs calls) (hn : n ∉ asked)
    {deps : Dependencies} (hq : (p.graph.query n s).1 = .ok deps) :
    Full p calls (asked ++ [n]) (p.graph.query n s).2 := by
  have hg := (p.query_steps n s).grows
  cases hnode : s.node? n with
  | none =>
    rw [query_of_not_exists hnode] at hq
    cases hq
  | some node =>
    obtain ⟨-, hall⟩ := query_calls hlogs hnode (h.body_eq_none hn hnode)
    have hsame : asked.filterMap (p.graph.query n s).2.code? = asked.filterMap s.code? := by
      refine List.filterMap_congr fun a ha => ?_
      obtain ⟨x, hx⟩ := h.nodes a ha
      exact hg.code?_eq hx
    refine { h.toTally.query hlogs hn with nodes := fun a ha => ?_, all := ?_ }
    · have hexists : ∃ x, s.node? a = some x := by
        rcases List.mem_append.mp ha with ha | ha
        · exact h.nodes a ha
        · exact ⟨node, List.mem_singleton.mp ha ▸ hnode⟩
      obtain ⟨x, hx⟩ := hexists
      obtain ⟨body, hx', -⟩ := hg.nodes a x hx
      exact ⟨_, hx'⟩
    · rw [hall deps hq, h.all, List.filterMap_append, hsame,
        hg.filterMap_code?_singleton hnode]

theorem Full.queryAll (h : Full p calls asked s) (hlogs : p.backend.Logs calls)
    (hns : (asked ++ ns).Nodup)
    (hanswered : ∀ a ∈ (p.graph.queryAll ns s).1, ∃ deps, a.2 = .ok deps) :
    Full p calls (asked ++ ns) (p.graph.queryAll ns s).2 := by
  induction ns generalizing asked s with
  | nil => rwa [List.append_nil]
  | cons n ns ih =>
    have hn : n ∉ asked := fun hmem =>
      (List.nodup_append.mp hns).2.2 n hmem n List.mem_cons_self rfl
    obtain ⟨deps, hq⟩ := hanswered _ List.mem_cons_self
    rw [List.append_cons] at hns ⊢
    exact ih (h.query hlogs hn hq) hns fun a ha => hanswered a (List.mem_cons_of_mem _ ha)

end Tally

end Program

end AheadOfTime
