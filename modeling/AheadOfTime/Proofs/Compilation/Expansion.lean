import AheadOfTime.Proofs.Compilation.Repeated
import AheadOfTime.Proofs.Node.Expansion

/-! What can end a compilation. A node that was made can be asked for all that it leads to, as long
as nothing of that is open and there are handles left (`Stuck.succeeds`). So after the roots a run
fails only at a handle without a node, in the code of a method, or at something open that a node
mentions, apart from a full arena (`run_fails`). -/

namespace AheadOfTime

variable {β : Type}

namespace Program

variable {α : Type} {p : Program β} {s : Store β} {n : NodeId} {node : Node} {M : Entity → Prop}

/-- Work for a node succeeds, or fails because every handle has a node. -/
def Succeeds (p : Program β) (node : Node) (s : Store β) (x : Work β α) : Prop :=
  (∃ a, (x.run s).1 = .ok a) ∨ (x.run s).2.size = 0x100000000 ∧
    ∃ k : Key, (x.run s).1 =
      .error (.unresolved (k.describe p.world) (some node.name) .arenaFull)

/-- Nothing is in the way of a node that is not of code and leads to nothing open. -/
theorem Blames.succeeds {x : Work β α} (h : p.Blames s x (p.Stuck M node))
    (hcode : ∀ m, node.key ≠ .methodEntrypoint m) (hclosed : ∀ e, M e → ¬ p.world.IsOpen e) :
    p.Succeeds node s x := by
  cases hrun : (x.run s).1 with
  | ok a => exact .inl ⟨a, hrun⟩
  | error e =>
    cases h.error e hrun with
    | full k hfull => exact .inr ⟨hfull, k, hrun⟩
    | openType ht hopen => exact absurd hopen (hclosed _ ht)
    | openMethod hm hopen => exact absurd hopen (hclosed _ hm)
    | backend hkey hb => exact absurd hkey (hcode _)
    | reported hkey hb hr fault => exact absurd hkey (hcode _)

end Program

namespace Compilation

variable {c : Compilation β} {x : Session β}

/-- A handle that has no node in the end is one that a source has given. -/
theorem givenRoot_of_not_existing (hx : c.program.Sound x.store)
    (hgather : (c.program.gather c.roots x.store).error = none) {q : Candidate}
    (hpending : q ∈ (c.program.graph.drain
      (.ofRoots c.tracking (c.program.gather c.roots x.store).roots)
      (c.program.gather c.roots x.store).store).walk.pending)
    (hq : q.node ∉ Program.existing (c.program.graph.drain
      (.ofRoots c.tracking (c.program.gather c.roots x.store).roots)
      (c.program.gather c.roots x.store).store).state) :
    ∃ source ∈ c.roots, ∃ root ∈ source.givenRoots, root.node = q.node := by
  have hgathered := hx.steps (Program.gather_creates (p := c.program) c.roots x.store).steps
  rcases Program.drain_stopped_root hgathered rfl hpending with hin | ⟨root, hroot, hsame⟩
  · exact absurd hin hq
  obtain ⟨source, hsource, hgiven | ⟨r, -, hfor⟩⟩ :=
    (Program.gather_rootsOf hgather).sourced root hroot
  · exact ⟨source, hsource, root, hgiven, hsame⟩
  · refine absurd ?_ hq
    rw [← hsame]
    exact Program.existing_mono (Program.drain_steps _ _).grows
      (hgathered.existing_of_lookup hfor.serves.lookup)

/-- Where a walk fails: at a question about a handle that a source has given and that has no node, or
about the node that the error names. -/
theorem walk_fails_at (hx : c.program.Sound x.store)
    (hgather : (c.program.gather c.roots x.store).error = none) {e : WalkError NodeError}
    (he : (c.outcome x.store).error = some e) :
    ∃ n s, c.program.Steps (c.program.gather c.roots x.store).store s ∧
      (c.program.graph.query n s).1 = .error e.cause ∧
      c.program.Steps (c.program.graph.query n s).2 (c.outcome x.store).state ∧
      ((s.node? n = none ∧ e.cause = .unresolved n.label none .foreignNode ∧
          ∃ source ∈ c.roots, ∃ root ∈ source.givenRoots, root.node = n) ∨
        ∃ node body, s.node? n = some node ∧
          (c.outcome x.store).state.node? n = some { node with body } ∧ e.node = node.name) := by
  obtain ⟨q, s, hpending, hs, hquery, hreach, hname⟩ := Graph.walk_stops
    (g := c.program.graph) (w := .ofRoots c.tracking (c.program.gather c.roots x.store).roots)
    (I := c.program.Steps (c.program.gather c.roots x.store).store)
    (fun s hs n => hs.trans (c.program.query_steps n s)) .refl c.parallel he
  have hlater : c.program.Steps _ (c.outcome x.store).state :=
    hreach.keeps (fun s' hs' n => hs'.trans (c.program.query_steps n s')) .refl
  refine ⟨q.node, s, hs, by rw [hquery], by rwa [hquery], ?_⟩
  cases hnode : s.node? q.node with
  | none =>
    have hmissing : q.node ∉ Program.existing s := by simp [Program.existing, hnode]
    have hforeign := Program.query_of_not_existing (p := c.program) hmissing
    rw [hquery] at hforeign
    obtain ⟨hcause, rfl⟩ := Prod.mk.inj hforeign
    exact .inl ⟨rfl, Except.error.inj hcause,
      givenRoot_of_not_existing hx hgather hpending hmissing⟩
  | some node =>
    -- the error names the node after the walk, when it is called what it was called before
    have hsteps := c.program.query_steps q.node s
    rw [hquery] at hsteps
    obtain ⟨body, hnode', -⟩ := (Program.Steps.grows (hsteps.trans hlater)).nodes _ node hnode
    refine .inr ⟨node, body, rfl, hnode', hname.trans ?_⟩
    show (c.outcome x.store).state.name q.node = node.name
    rw [Store.name, hnode']

/-- How a walk fails: at a given handle without a node, or at a node that is stuck. -/
theorem walk_fails (hw : c.program.world.WellFormed) (hx : c.program.Settled x.store)
    (hgather : (c.program.gather c.roots x.store).error = none) {e : WalkError NodeError}
    (he : (c.outcome x.store).error = some e) :
    (∃ source ∈ c.roots, ∃ root ∈ source.givenRoots,
        e.cause = .unresolved root.node.label none .foreignNode) ∨
      ∃ n node, (c.outcome x.store).state.node? n = some node ∧ e.node = node.name ∧
        c.program.Stuck (c.program.world.Expands node.key) node (c.outcome x.store).state e.cause := by
  obtain ⟨n, s, hs, hquery, hlater, ⟨-, hcause, source, hsource, root, hroot, rfl⟩ |
    ⟨node, body, hnode, hnode', hname⟩⟩ := walk_fails_at hx.sound hgather he
  · exact .inl ⟨source, hsource, root, hroot, hcause⟩
  · have hgathered := hx.steps (Program.gather_creates (p := c.program) c.roots x.store).steps
    have hstuck := Program.query_blames hw (hgathered.steps hs) hnode hquery
    have hfailed := hgathered.steps (hs.trans (c.program.query_steps n s))
    exact .inr ⟨n, _, hnode', hname, hstuck.imp (fun _ h => h) rfl rfl (hfailed.full_later hlater)⟩

/-- Whatever was asked of a program and however often it was run: a node that is not of code can be
asked for its edges if it mentions nothing open, and for its conditional edges if it implements no
slot by an open method. A run that fails has failed at a root; or at a handle that a
source has given and that has no node; or at a node that is stuck, and says so under its name. -/
theorem accepted_expand (c : Compilation β) (ds : List Declaration)
    (hworld : c.program.world = .populated ds) (b : β) (os : List Operation) (files : Files.Tree)
    (transcript : Transcript) (runs : Nat) :
    let p := c.program
    let x := (fun x => (c.run x).2)^[runs] ⟨p.performAll b os, files, transcript⟩
    (∀ n node, x.store.node? n = some node → (∀ m, node.key ≠ .methodEntrypoint m) →
      ((∀ e, p.world.Mentions node.key e → ¬ p.world.IsOpen e) →
        p.Succeeds node x.store (p.edges n)) ∧
      ((∀ e, p.world.Implements node.key e → ¬ p.world.IsOpen e) →
        p.Succeeds node x.store (p.conditional n))) ∧
    ∀ error, (c.run x).1 = .error error →
      (∃ e, error = .roots e) ∨ ∃ e, error = .walk e ∧
        ((∃ source ∈ c.roots, ∃ root ∈ source.givenRoots,
          e.cause = .unresolved root.node.label none .foreignNode) ∨
        ∃ n node, (c.run x).2.store.node? n = some node ∧ e.node = node.name ∧
          p.Stuck (p.world.Expands node.key) node (c.run x).2.store e.cause) := by
  intro p x
  have hw : p.world.WellFormed := hworld ▸ World.wellFormed_populated ds
  have hstart : p.Settled (p.performAll b os) :=
    (p.settled_empty b).steps (p.foldl_perform_steps _ os)
  have hx : p.Settled x.store := settled_runs hstart runs
  refine ⟨fun n node hn hcode => ⟨fun hclosed => ?_, fun hclosed => ?_⟩, fun error herror => ?_⟩
  · exact (Program.edges_blames hw hx hn).succeeds hcode hclosed
  · exact (Program.conditional_blames hw hx hn .refl).succeeds hcode hclosed
  · cases hgather : (c.program.gather c.roots x.store).error with
    | some e =>
      rw [run_of_gather_error hgather] at herror
      exact .inl ⟨e, (Except.error.inj herror).symm⟩
    | none =>
      cases hwalk : (c.outcome x.store).error with
      | none =>
        obtain ⟨r, hr⟩ := exists_run_ok hgather hwalk
        cases hr.symm.trans herror
      | some e =>
        rw [run_eq hgather, conclude_error hwalk] at herror
        rw [run_store hgather]
        exact .inr ⟨e, (Except.error.inj herror).symm, walk_fails hw hx hgather hwalk⟩

/-- A list type, a slot that one type introduces and another implements, and instantiations. -/
def listings : List Declaration :=
  [.module ⟨"App", ⟨1, 0, 0, 0⟩, [], "", 0, []⟩, .type ⟨0⟩ "" "List" 1 none,
    .type ⟨0⟩ "" "Base" 0 none, .type ⟨0⟩ "" "Main" 0 (some ⟨1⟩), .method ⟨1⟩ "Run" 0 true,
    .method ⟨2⟩ "Run" 0 true, .method ⟨2⟩ "Map" 1 false, .override ⟨2⟩ ⟨⟨0⟩, ⟨1⟩⟩,
    .typeInstance ⟨0⟩ [⟨2⟩], .methodInstance ⟨2⟩ [⟨2⟩]]

/-- The start asks for the list type itself, which is open. -/
def listing : Compilation CallLog where
  program := ⟨.populated listings, .wholeProgram,
    Script.backend [(⟨1⟩, .compile [⟨.typeHandle ⟨0⟩, "list"⟩])], ⟨.blended, false, []⟩⟩
  tracking := .none
  roots := [.entryPoint ⟨1⟩]
  metadataLog := none
  dependencyLog := none
  parallel := false

def listingAsked : List Operation :=
  [.obtain (.typeDescriptor ⟨2⟩), .obtain (.typeDictionary ⟨3⟩), .obtain (.methodDictionary ⟨3⟩),
    .obtain (.virtualMethodUse ⟨0⟩)]

/-- All nodes that were asked for lead to what is closed. -/
theorem listing_closed {n : NodeId} {node : Node}
    (hn : (listing.program.performAll .empty listingAsked).node? n = some node) :
    (∀ m, node.key ≠ .methodEntrypoint m) ∧
      ∀ e, (World.populated listings).Expands node.key e → ¬ (World.populated listings).IsOpen e := by
  have hbase : (World.populated listings).typeInfo ⟨1⟩ =
      .ok ⟨⟨0⟩, "", "Base", 0, none, none, []⟩ := by cbv
  have hmain : (World.populated listings).typeInfo ⟨2⟩ =
      .ok ⟨⟨0⟩, "", "Main", 0, none, some ⟨1⟩, [⟨⟨0⟩, ⟨1⟩⟩]⟩ := by cbv
  have hlist : (World.populated listings).typeInfo ⟨3⟩ =
      .ok ⟨⟨0⟩, "", "List", 0, some ⟨⟨0⟩, [⟨2⟩]⟩, none, []⟩ := by cbv
  have hslot : (World.populated listings).methodInfo ⟨0⟩ =
      .ok ⟨⟨1⟩, "Run", 0, none, true⟩ := by cbv
  have hmap : (World.populated listings).methodInfo ⟨3⟩ =
      .ok ⟨⟨2⟩, "Map", 0, some ⟨⟨2⟩, [⟨2⟩]⟩, false⟩ := by cbv
  have hrun : (World.populated listings).isOpenMethod ⟨1⟩ = .ok false := by cbv
  have hclosed {t : TypeId} {info : TypeInfo} (ht : (World.populated listings).typeInfo t = .ok info)
      (hinfo : info.isOpen = false) : ¬ (World.populated listings).IsOpen (.type t) := by
    rintro ⟨info', ht', hopen⟩
    cases ht.symm.trans ht'
    cases hinfo.symm.trans hopen
  have hnodes : (listing.program.performAll .empty listingAsked).nodes.toList.map (·.key) =
      [.typeDescriptor ⟨2⟩, .typeDictionary ⟨3⟩, .methodDictionary ⟨3⟩, .virtualMethodUse ⟨0⟩] := by
    cbv
  have hmem : node.key ∈ (listing.program.performAll .empty listingAsked).nodes.toList.map (·.key) :=
    List.mem_map.mpr ⟨node, Array.mem_toList_iff.mpr (Array.mem_of_getElem? hn), rfl⟩
  rw [hnodes] at hmem
  simp only [List.mem_cons, List.not_mem_nil, or_false] at hmem
  rcases hmem with hkey | hkey | hkey | hkey <;> rw [hkey]
  all_goals refine ⟨fun m hm => (by cases hm), fun e he => ?_⟩
  · cases he with
    | inl he =>
      obtain ⟨ht, hb⟩ := he
      cases hmain.symm.trans ht
      cases hb
      exact hclosed hbase rfl
    | inr he =>
      obtain ⟨ht, ho⟩ := he
      cases hmain.symm.trans ht
      obtain rfl := List.mem_singleton.mp ho
      exact fun hopen => by cases hrun.symm.trans hopen
  · cases he with
    | inl he =>
      cases he with
      | typeArgument ht ha =>
        cases hlist.symm.trans ht
        obtain rfl := List.mem_singleton.mp ha
        exact hclosed hmain rfl
    | inr he => cases he
  · cases he with
    | inl he =>
      cases he with
      | methodArgument hm ha =>
        cases hmap.symm.trans hm
        obtain rfl := List.mem_singleton.mp ha
        exact hclosed hmain rfl
    | inr he => cases he
  · cases he with
    | inl he =>
      cases he with
      | declaring hm =>
        cases hslot.symm.trans hm
        exact hclosed hbase rfl
    | inr he => cases he

theorem accepted_expand_listing :
    let p := listing.program
    let x : Session CallLog := ⟨p.performAll .empty listingAsked, ⟨[], []⟩, .silent⟩
    (∀ n node, x.store.node? n = some node →
      p.Succeeds node x.store (p.edges n) ∧ p.Succeeds node x.store (p.conditional n)) ∧
    ∃ e n node, (listing.run x).1 = .error (.walk e) ∧
      (listing.run x).2.store.node? n = some node ∧ e.node = node.name ∧
      p.Stuck (p.world.Expands node.key) node (listing.run x).2.store e.cause := by
  intro p x
  obtain ⟨hexpand, hfail⟩ := accepted_expand listing listings rfl .empty listingAsked ⟨[], []⟩ .silent 0
  refine ⟨fun n node hn => ?_, ?_⟩
  · obtain ⟨hcode, hclosed⟩ := listing_closed hn
    exact (hexpand n node hn hcode).imp (· fun e he => hclosed e (.inl he))
      (· fun e he => hclosed e (.inr he))
  · have hgather : (listing.program.gather listing.roots
        (listing.program.performAll .empty listingAsked)).error = none := by cbv
    have hwalk : (listing.outcome (listing.program.performAll .empty listingAsked)).error =
        some ⟨"_ilc_App$$Main$$Run", ["root (entry point)"], .unresolved "TypeDescriptor(List`1)"
          (some "_ilc_App$$Main$$Run") .openType⟩ := by cbv
    have herror : (listing.run x).1 = .error (.walk ⟨"_ilc_App$$Main$$Run", ["root (entry point)"],
        .unresolved "TypeDescriptor(List`1)" (some "_ilc_App$$Main$$Run") .openType⟩) := by
      rw [run_eq (c := listing) (x := x) hgather, conclude_error hwalk]
    obtain ⟨e, he⟩ | ⟨e, he, ⟨source, hsource, root, hroot, -⟩ | ⟨n, node, hn, hname, hstuck⟩⟩ :=
      hfail _ herror
    · cases he
    · obtain rfl := List.mem_singleton.mp hsource
      cases hroot
    · cases he
      exact ⟨_, n, node, herror, hn, hname, hstuck⟩

/-- A list type that is the base of a type, an argument of itself and of a method, the owner of a
slot, and the owner of what implements the slot. -/
def unbound : List Declaration :=
  [.module ⟨"App", ⟨1, 0, 0, 0⟩, [], "", 0, []⟩, .type ⟨0⟩ "" "List" 1 none,
    .type ⟨0⟩ "" "Derived" 0 (some ⟨0⟩), .method ⟨0⟩ "Visit" 0 true, .method ⟨1⟩ "Map" 1 false,
    .typeInstance ⟨0⟩ [⟨0⟩], .methodInstance ⟨1⟩ [⟨0⟩], .type ⟨0⟩ "" "Main" 0 none,
    .override ⟨3⟩ ⟨⟨0⟩, ⟨0⟩⟩]

def leadingAstray : Compilation CallLog where
  program := ⟨.populated unbound, .wholeProgram, Script.backend [], ⟨.blended, false, []⟩⟩
  tracking := .none
  roots := [.explicit [⟨.typeHandle ⟨1⟩, "type"⟩]]
  metadataLog := none
  dependencyLog := none
  parallel := false

def storeAstray : Store CallLog := leadingAstray.program.performAll .empty
  [.obtain (.typeDescriptor ⟨1⟩), .obtain (.typeDictionary ⟨2⟩), .obtain (.methodDictionary ⟨2⟩),
    .obtain (.virtualMethodUse ⟨0⟩), .obtain (.typeDescriptor ⟨3⟩)]

/-- The check of a key does not look at what its node leads to, so nodes are made that no question
about them can follow. -/
theorem expansion_led_astray :
    (storeAstray.slots.map (·.1) = [.typeDescriptor ⟨1⟩, .typeDictionary ⟨2⟩, .methodDictionary ⟨2⟩,
      .virtualMethodUse ⟨0⟩, .typeDescriptor ⟨3⟩]) ∧
    (∀ n ∈ [⟨0, by decide⟩, ⟨1, by decide⟩, ⟨2, by decide⟩, ⟨3, by decide⟩],
      ((leadingAstray.program.edges n).run storeAstray).1 = .error
        (.unresolved "TypeDescriptor(List`1)" (some (storeAstray.name n)) .openType)) ∧
    ((leadingAstray.program.conditional ⟨4, by decide⟩).run storeAstray).1 = .error
      (.unresolved "MethodEntrypoint(List`1.Visit)" (some "_ilc_App$$Main$EEType") .openMethod) ∧
    ∃ e, (leadingAstray.run ⟨.empty .empty, ⟨[], []⟩, .silent⟩).1 = .error (.walk e) ∧
      e.node = "_ilc_App$$Derived$EEType" := by
  have hgather : (leadingAstray.program.gather leadingAstray.roots (.empty .empty)).error = none := by
    cbv
  have hwalk : (leadingAstray.outcome (.empty .empty)).error =
      some ⟨"_ilc_App$$Derived$EEType", ["root (type)"], .unresolved "TypeDescriptor(List`1)"
        (some "_ilc_App$$Derived$EEType") .openType⟩ := by cbv
  have herror : (leadingAstray.run ⟨.empty .empty, ⟨[], []⟩, .silent⟩).1 =
      .error (.walk ⟨"_ilc_App$$Derived$EEType", ["root (type)"], .unresolved "TypeDescriptor(List`1)"
        (some "_ilc_App$$Derived$EEType") .openType⟩) := by
    rw [run_eq (c := leadingAstray) (x := ⟨.empty .empty, ⟨[], []⟩, .silent⟩) hgather,
      conclude_error hwalk]
  refine ⟨by cbv, ?_, by cbv, _, herror, rfl⟩
  simp only [List.forall_mem_cons]
  exact ⟨by cbv, by cbv, by cbv, by cbv, by simp⟩

end Compilation

end AheadOfTime
