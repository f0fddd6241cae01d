import AheadOfTime.Node.Program
import Mathlib.Logic.Relation

/-! How a store changes. Whatever a program is asked, its store changes by steps of three kinds: a
node is made for a key that has none, a method is compiled, or the backend fails on one. No step
takes anything away (`Step.grows`), and index, names and bodies stay in order (`Sound.step`). -/

namespace AheadOfTime

variable {β : Type}

namespace Store

/-- All nodes of a store are still there in another, at most with a body that was missing. -/
structure Grows (s s' : Store β) : Prop where
  lookup : ∀ k n, s.lookup k = some n → s'.lookup k = some n
  nodes : ∀ n node, s.node? n = some node → ∃ body, s'.node? n = some { node with body := body } ∧
    ∀ b, node.body = some b → body = some b

theorem Grows.refl (s : Store β) : s.Grows s :=
  ⟨fun _ _ h => h, fun _ node h => ⟨node.body, h, fun _ hb => hb⟩⟩

theorem Grows.trans {s s' s'' : Store β} (h : s.Grows s') (h' : s'.Grows s'') : s.Grows s'' := by
  refine ⟨fun k n hk => h'.lookup k n (h.lookup k n hk), fun n node hn => ?_⟩
  obtain ⟨body, hn', hbody⟩ := h.nodes n node hn
  obtain ⟨later, hn'', hlater⟩ := h'.nodes n _ hn'
  exact ⟨later, hn'', fun b hb => hlater b (hbody b hb)⟩

/-- Contents stay what they are. -/
theorem Grows.agrees {s s' : Store β} (h : s.Grows s') {n : NodeId} {data : Option Blob}
    (ha : s.agrees n data) : s'.agrees n data := by
  cases data with
  | none => rfl
  | some data =>
    have ha : (s.node? n).bind Node.data = some data := of_decide_eq_true ha
    obtain ⟨node, hn, hdata⟩ := Option.bind_eq_some_iff.mp ha
    obtain ⟨body, hn', -⟩ := h.nodes n node hn
    exact decide_eq_true (Option.bind_eq_some_iff.mpr ⟨_, hn', hdata⟩)

/-- A store with one more node. -/
def push (s : Store β) (n : NodeId) (node : Node) : Store β :=
  { s with nodes := s.nodes.push node, index := (node.key, n) :: s.index }

theorem add_eq_some {s s' : Store β} {node : Node} {n : NodeId} (h : s.add node = some (n, s')) :
    n.index = s.size ∧ s' = s.push n node := by
  unfold add NodeId.ofIndex? at h
  split at h
  · cases h
    exact ⟨rfl, rfl⟩
  · cases h

variable {s : Store β} {n m : NodeId} {node x : Node}

theorem node?_push (hn : n.index = s.size) :
    (s.push n node).node? m = some x ↔ s.node? m = some x ∨ (m = n ∧ x = node) := by
  rw [node?, push, Array.getElem?_push]
  split
  · rename_i hm
    have hnone : s.node? m = none := by simp [node?, hm]
    have hmn : m = n := by
      cases m
      cases n
      simp_all [size]
    subst hmn
    simp [hnone, eq_comm]
  · rename_i hm
    have hne : m ≠ n := fun h => hm (by rw [h, hn]; rfl)
    simp [node?, hne]

theorem node?_push_self (hn : n.index = s.size) : (s.push n node).node? n = some node :=
  (node?_push hn).mpr (.inr ⟨rfl, rfl⟩)

theorem lookup_push {k : Key} :
    (s.push n node).lookup k = if k = node.key then some n else s.lookup k := by
  rw [lookup, push, List.lookup_cons]
  split <;> simp_all [lookup]

theorem node?_setBody {body : MethodBody} : (s.setBody n body).node? m =
    (s.node? m).map fun node => if m = n then { node with body := some body } else node := by
  rw [node?, setBody, Array.getElem?_modify, node?]
  by_cases h : m = n
  · simp [h]
  · have hindex : n.index ≠ m.index := by
      intro hindex
      cases m
      cases n
      simp_all
    simp [h, hindex]

theorem grows_push (hn : n.index = s.size) (hk : s.lookup node.key = none) :
    s.Grows (s.push n node) := by
  refine ⟨fun k m hm => ?_, fun m x hm => ⟨x.body, (node?_push hn).mpr (.inl hm), fun _ hb => hb⟩⟩
  have hne : k ≠ node.key := by
    rintro rfl
    simp [hk] at hm
  rw [lookup_push, if_neg hne, hm]

theorem grows_setBody {body : MethodBody} (hn : s.node? n = some node) (hbody : node.body = none) :
    s.Grows (s.setBody n body) := by
  refine ⟨fun _ _ hk => hk, fun m x hm => ?_⟩
  rw [node?_setBody, hm]
  by_cases h : m = n
  · obtain rfl : x = node := by rw [h, hn] at hm; exact (Option.some.inj hm).symm
    exact ⟨some body, by simp [h], by simp [hbody]⟩
  · exact ⟨x.body, by simp [h], fun _ hb => hb⟩

end Store

namespace Program

variable {p : Program β} {s s' : Store β}

/-- A node is made for a key that may have one and has none. -/
inductive Create (p : Program β) : Store β → Store β → Prop where
  | node {s : Store β} {n k data name} (hk : s.lookup k = none) (hn : n.index = s.size)
      (hname : p.world.nodeSymbol data.isSome k = .ok name) :
      Create p s (s.push n ⟨k, name, data, none⟩)

inductive Step (p : Program β) : Store β → Store β → Prop where
  | create {s s' : Store β} (h : p.Create s s') : Step p s s'
  /-- A method whose node has no body yet is compiled. -/
  | compile {s : Store β} {n node m body b} (hn : s.node? n = some node)
      (hkey : node.key = .methodEntrypoint m) (hbody : node.body = none)
      (hb : p.backend.compile p.world p.settings m s.backend = (.ok body, b)) :
      Step p s ({ s with backend := b }.setBody n body)
  | fail {s : Store β} {n node m cause b} (hn : s.node? n = some node)
      (hkey : node.key = .methodEntrypoint m) (hbody : node.body = none)
      (hb : p.backend.compile p.world p.settings m s.backend = (.error cause, b)) :
      Step p s { s with backend := b }

abbrev Creates (p : Program β) : Store β → Store β → Prop := Relation.ReflTransGen p.Create

abbrev Steps (p : Program β) : Store β → Store β → Prop := Relation.ReflTransGen p.Step

theorem Create.node? (h : p.Create s s') {n : NodeId} {node : Node} (hn : s.node? n = some node) :
    s'.node? n = some node := by
  obtain ⟨-, hsize, -⟩ := h
  exact (Store.node?_push hsize).mpr (.inl hn)

theorem Creates.node? (h : p.Creates s s') {n : NodeId} {node : Node} (hn : s.node? n = some node) :
    s'.node? n = some node := by
  induction h with
  | refl => exact hn
  | tail _ hc ih => exact hc.node? ih

theorem Creates.steps (h : p.Creates s s') : p.Steps s s' := h.lift id fun _ _ => .create

theorem Step.grows (h : p.Step s s') : s.Grows s' := by
  cases h with
  | create h =>
    obtain ⟨hk, hn, -⟩ := h
    exact Store.grows_push hn hk
  | @compile n node m body b hn hkey hbody hb =>
    have hgrows : Store.Grows { s with backend := b } ({ s with backend := b }.setBody n body) :=
      Store.grows_setBody hn hbody
    exact ⟨hgrows.lookup, hgrows.nodes⟩
  | fail hn hkey hbody hb => exact ⟨(Store.Grows.refl s).lookup, (Store.Grows.refl s).nodes⟩

theorem Steps.grows (h : p.Steps s s') : s.Grows s' := by
  induction h with
  | refl => exact .refl s
  | tail _ hstep ih => exact ih.trans hstep.grows

/-- Index and arena are inverse to each other, every node has the name of its key, and bodies are
what the backend made of the methods that they are kept with. -/
structure Sound (p : Program β) (s : Store β) : Prop where
  lookup_iff : ∀ k n, s.lookup k = some n ↔ ∃ node, s.node? n = some node ∧ node.key = k
  named : ∀ n node, s.node? n = some node →
    p.world.nodeSymbol node.data.isSome node.key = .ok node.name
  compiled : ∀ n node body, s.node? n = some node → node.body = some body →
    ∃ m b b', node.key = .methodEntrypoint m ∧
      p.backend.compile p.world p.settings m b = (.ok body, b')

theorem sound_empty (p : Program β) (b : β) : p.Sound (.empty b) := by
  have hnode (n : NodeId) (node : Node) : (Store.empty b).node? n ≠ some node := by
    simp [Store.node?, Store.empty]
  refine ⟨fun k n => ?_, fun n node hn => absurd hn (hnode n node),
    fun n node body hn => absurd hn (hnode n node)⟩
  simp [hnode, Store.lookup, show (Store.empty b).index = [] from rfl]

theorem Sound.create (hs : p.Sound s) (h : p.Create s s') : p.Sound s' := by
  obtain @⟨n, k, data, name, hk, hn, hname⟩ := h
  refine ⟨fun k' n' => ?_, fun n' node hn' => ?_, fun n' node body hn' hbody => ?_⟩
  · rw [Store.lookup_push]
    simp only [Store.node?_push hn]
    split
    · rename_i hkey
      have hkey : k' = k := hkey
      subst hkey
      constructor
      · rintro ⟨⟩
        exact ⟨_, .inr ⟨rfl, rfl⟩, rfl⟩
      · rintro ⟨node, hold | ⟨rfl, rfl⟩, hkey⟩
        · simp [(hs.lookup_iff k' n').mpr ⟨node, hold, hkey⟩] at hk
        · rfl
    · rename_i hne
      rw [hs.lookup_iff]
      refine exists_congr fun node => and_congr_left fun hkey => ?_
      refine ⟨.inl, fun h => h.resolve_right ?_⟩
      rintro ⟨-, rfl⟩
      exact hne hkey.symm
  · rcases (Store.node?_push hn).mp hn' with hold | ⟨rfl, rfl⟩
    · exact hs.named n' node hold
    · exact hname
  · rcases (Store.node?_push hn).mp hn' with hold | ⟨rfl, rfl⟩
    · exact hs.compiled n' node body hold hbody
    · cases hbody

theorem Sound.setBody {n : NodeId} {node : Node} {m : MethodId} {body : MethodBody} {b : β}
    (hs : p.Sound s) (hn : s.node? n = some node) (hkey : node.key = .methodEntrypoint m)
    (hb : p.backend.compile p.world p.settings m s.backend = (.ok body, b)) :
    p.Sound ({ s with backend := b }.setBody n body) := by
  have hnode (n' : NodeId) (x : Node) :
      ({ s with backend := b }.setBody n body).node? n' = some x →
        ∃ old, s.node? n' = some old ∧ x.key = old.key ∧ x.name = old.name ∧ x.data = old.data ∧
          (x.body = old.body ∨ (n' = n ∧ x.body = some body)) := by
    intro hx
    rw [Store.node?_setBody] at hx
    obtain ⟨old, hold, rfl⟩ := Option.map_eq_some_iff.mp hx
    refine ⟨old, hold, ?_⟩
    split <;> simp_all
  refine ⟨fun k n' => ?_, fun n' x hx => ?_, fun n' x y hx hy => ?_⟩
  · refine (hs.lookup_iff k n').trans ⟨fun ⟨x, hx, hk⟩ => ?_, fun ⟨x, hx, hk⟩ => ?_⟩
    · refine ⟨_, by rw [Store.node?_setBody]; exact Option.map_eq_some_iff.mpr ⟨x, hx, rfl⟩, ?_⟩
      split <;> exact hk
    · obtain ⟨old, hold, hkeys, -⟩ := hnode n' x hx
      exact ⟨old, hold, hkeys ▸ hk⟩
  · obtain ⟨old, hold, hkeys, hnames, hdata, -⟩ := hnode n' x hx
    rw [hkeys, hnames, hdata]
    exact hs.named n' old hold
  · obtain ⟨old, hold, hkeys, -, -, hbody | ⟨rfl, hbody⟩⟩ := hnode n' x hx
    · rw [hkeys]
      exact hs.compiled n' old y hold (hbody ▸ hy)
    · obtain rfl : old = node := by rw [hn] at hold; exact (Option.some.inj hold).symm
      obtain rfl : body = y := by rw [hbody] at hy; exact Option.some.inj hy
      exact ⟨m, s.backend, b, hkeys.trans hkey, hb⟩

theorem Sound.step (hs : p.Sound s) (h : p.Step s s') : p.Sound s' := by
  cases h with
  | create h => exact hs.create h
  | compile hn hkey hbody hb => exact hs.setBody hn hkey hb
  | fail hn hkey hbody hb => exact ⟨hs.lookup_iff, hs.named, hs.compiled⟩

theorem Sound.steps (hs : p.Sound s) (h : p.Steps s s') : p.Sound s' := by
  induction h with
  | refl => exact hs
  | tail _ hstep ih => exact ih.step hstep

theorem Sound.key_of_lookup (hs : p.Sound s) {k : Key} {n : NodeId} (hk : s.lookup k = some n)
    {node : Node} (hn : s.node? n = some node) : node.key = k := by
  obtain ⟨node', hn', hkey⟩ := (hs.lookup_iff k n).mp hk
  rw [hn] at hn'
  cases hn'
  exact hkey

theorem Sound.lookup_inj (hs : p.Sound s) {k k' : Key} {n : NodeId} (hk : s.lookup k = some n)
    (hk' : s.lookup k' = some n) : k = k' := by
  obtain ⟨node, hn, hkey⟩ := (hs.lookup_iff k n).mp hk
  exact hkey.symm.trans (hs.key_of_lookup hk' hn)

theorem Sound.handle_inj (hs : p.Sound s) {n m : NodeId} {node node' : Node}
    (hn : s.node? n = some node) (hm : s.node? m = some node') (hkey : node.key = node'.key) :
    n = m := by
  have hlookup := (hs.lookup_iff _ n).mpr ⟨node, hn, rfl⟩
  rw [(hs.lookup_iff _ m).mpr ⟨node', hm, hkey.symm⟩] at hlookup
  exact (Option.some.inj hlookup).symm

end Program

end AheadOfTime
