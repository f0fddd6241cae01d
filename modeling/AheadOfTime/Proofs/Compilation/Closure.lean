import AheadOfTime.Codegen.Scripted
import AheadOfTime.Proofs.Compilation.Run
import AheadOfTime.Proofs.Except
import AheadOfTime.Proofs.Marking.Closure
import AheadOfTime.World.Population
import Mathlib

/-! What a compilation marks, in terms of keys. The table of what the node of each key needs is
written down once (`Program.Closed`), apart from how a program answers. Answers, which are about
handles in a store that grows, are read off the last store, where a handle and its key are the
same; so the marked keys are the least set that holds the roots and is closed under the table. -/

namespace AheadOfTime

/-- What the script of a method says that it refers to. -/
def Script.referencesOf (scripts : List (MethodId × Script)) (m : MethodId) : List Reference :=
  match scripts.reverse.lookup m with
  | some (.compile references) => references
  | _ => []

namespace World

variable {w : World} {m : MethodId} {t : TypeId}

theorem references_methodEntrypoint {info : MethodInfo} (h : w.methodInfo m = .ok info) :
    w.references (.methodEntrypoint m) = .ok (⟨.typeHandle info.owner, "owning type"⟩ ::
      if info.args = [] then [] else [⟨.methodDictionary m, "generic dictionary"⟩]) := by
  rw [references, h]; rfl

theorem references_typeDescriptor {info : TypeInfo} (h : w.typeInfo t = .ok info) :
    w.references (.typeDescriptor t) = .ok (info.base.toList.map (⟨.typeHandle ·, "base type"⟩) ++
      if info.args = [] then [] else [⟨.typeDictionary t, "generic dictionary"⟩]) := by
  rw [references, h]; rfl

theorem references_virtualMethodUse {info : MethodInfo} (h : w.methodInfo m = .ok info) :
    w.references (.virtualMethodUse m) = .ok [⟨.typeHandle info.owner, "declaring type"⟩] := by
  rw [references, h]; rfl

theorem references_methodDictionary {info : MethodInfo} (h : w.methodInfo m = .ok info) :
    w.references (.methodDictionary m) =
      .ok (info.args.map (⟨.typeHandle ·, "instantiation argument"⟩)) := by
  rw [references, h]; rfl

theorem references_typeDictionary {info : TypeInfo} (h : w.typeInfo t = .ok info) :
    w.references (.typeDictionary t) =
      .ok (info.args.map (⟨.typeHandle ·, "instantiation argument"⟩)) := by
  rw [references, h]; rfl

theorem overridesOf_typeDescriptor {info : TypeInfo} (h : w.typeInfo t = .ok info) :
    w.overridesOf (.typeDescriptor t) = .ok info.overrides := by
  rw [overridesOf, h]; rfl

end World

namespace Program

open World

variable {β : Type} {p : Program β} {s : Store β} {reported : MethodId → List Reference}
  {requests : List Request} {S : Set Key} {n : NodeId}

/-- The backend, if it compiles a method, tells these references. -/
def Reports (p : Program β) (reported : MethodId → List Reference) : Prop :=
  ∀ {m b body b'}, p.backend.compile p.world p.settings m b = (.ok body, b') →
    body.references = reported m

/-- A set of keys that holds those of some requests and whatever its members need. -/
structure Closed (p : Program β) (reported : MethodId → List Reference) (requests : List Request)
    (S : Set Key) : Prop where
  root : ∀ r ∈ requests, p.key r ∈ S
  owner : ∀ {m info}, Key.methodEntrypoint m ∈ S → p.world.methodInfo m = .ok info →
    p.key (.typeHandle info.owner) ∈ S
  methodDictionary : ∀ {m info}, Key.methodEntrypoint m ∈ S → p.world.methodInfo m = .ok info →
    info.args ≠ [] → p.key (.methodDictionary m) ∈ S
  body : ∀ {m}, Key.methodEntrypoint m ∈ S → ∀ r ∈ reported m, p.key r.target ∈ S
  base : ∀ {t info b}, Key.typeDescriptor t ∈ S → p.world.typeInfo t = .ok info →
    info.base = some b → p.key (.typeHandle b) ∈ S
  typeDictionary : ∀ {t info}, Key.typeDescriptor t ∈ S → p.world.typeInfo t = .ok info →
    info.args ≠ [] → p.key (.typeDictionary t) ∈ S
  declaring : ∀ {m info}, Key.virtualMethodUse m ∈ S → p.world.methodInfo m = .ok info →
    p.key (.typeHandle info.owner) ∈ S
  methodArgs : ∀ {m info}, Key.methodDictionary m ∈ S → p.world.methodInfo m = .ok info →
    ∀ a ∈ info.args, p.key (.typeHandle a) ∈ S
  typeArgs : ∀ {t info}, Key.typeDictionary t ∈ S → p.world.typeInfo t = .ok info →
    ∀ a ∈ info.args, p.key (.typeHandle a) ∈ S
  override : ∀ {t info}, Key.typeDescriptor t ∈ S → p.world.typeInfo t = .ok info →
    ∀ o ∈ info.overrides, Key.virtualMethodUse o.declaration ∈ S →
      p.key (.methodEntrypoint o.implementation) ∈ S

/-- The rows for references of keys alone. -/
theorem Closed.references (h : p.Closed reported requests S) {k : Key} (hk : k ∈ S)
    {own : List Reference} (hown : p.world.references k = .ok own) :
    ∀ r ∈ own, p.key r.target ∈ S := by
  intro r hr
  cases k with
  | methodEntrypoint m =>
    obtain ⟨info, hinfo, hown⟩ := Except.bind_eq_ok.mp hown
    cases hown
    rcases List.mem_cons.mp hr with rfl | hr
    · exact h.owner hk hinfo
    · split at hr
      · cases hr
      · rename_i hargs
        rw [List.mem_singleton.mp hr]
        exact h.methodDictionary hk hinfo hargs
  | typeDescriptor t =>
    obtain ⟨info, hinfo, hown⟩ := Except.bind_eq_ok.mp hown
    cases hown
    rcases List.mem_append.mp hr with hr | hr
    · obtain ⟨b, hb, rfl⟩ := List.mem_map.mp hr
      exact h.base hk hinfo (Option.mem_toList.mp hb)
    · split at hr
      · cases hr
      · rename_i hargs
        rw [List.mem_singleton.mp hr]
        exact h.typeDictionary hk hinfo hargs
  | virtualMethodUse m =>
    obtain ⟨info, hinfo, hown⟩ := Except.bind_eq_ok.mp hown
    cases hown
    rw [List.mem_singleton.mp hr]
    exact h.declaring hk hinfo
  | methodDictionary m =>
    obtain ⟨info, hinfo, hown⟩ := Except.bind_eq_ok.mp hown
    cases hown
    obtain ⟨a, ha, rfl⟩ := List.mem_map.mp hr
    exact h.methodArgs hk hinfo a ha
  | typeDictionary t =>
    obtain ⟨info, hinfo, hown⟩ := Except.bind_eq_ok.mp hown
    cases hown
    obtain ⟨a, ha, rfl⟩ := List.mem_map.mp hr
    exact h.typeArgs hk hinfo a ha
  | _ =>
    cases hown
    cases hr

theorem Closed.overrides (h : p.Closed reported requests S) {k : Key} (hk : k ∈ S)
    {overrides : List Override} (hoverrides : p.world.overridesOf k = .ok overrides) :
    ∀ o ∈ overrides, Key.virtualMethodUse o.declaration ∈ S →
      p.key (.methodEntrypoint o.implementation) ∈ S := by
  intro o ho
  cases k with
  | typeDescriptor t =>
    obtain ⟨info, hinfo, rfl⟩ := Except.map_eq_ok.mp hoverrides
    exact h.override hk hinfo o ho
  | _ =>
    cases hoverrides
    cases ho

/-- Conversely a set is closed if it holds what the references of its members are bound to. -/
theorem closed_of_references (hroot : ∀ r ∈ requests, p.key r ∈ S)
    (hown : ∀ {k own}, k ∈ S → p.world.references k = .ok own → ∀ r ∈ own, p.key r.target ∈ S)
    (hbody : ∀ {m}, Key.methodEntrypoint m ∈ S → ∀ r ∈ reported m, p.key r.target ∈ S)
    (hoverrides : ∀ {k overrides}, k ∈ S → p.world.overridesOf k = .ok overrides →
      ∀ o ∈ overrides, Key.virtualMethodUse o.declaration ∈ S →
        p.key (.methodEntrypoint o.implementation) ∈ S) : p.Closed reported requests S where
  root := hroot
  owner hk hinfo := hown hk (references_methodEntrypoint hinfo) _ List.mem_cons_self
  methodDictionary hk hinfo hargs := by
    refine hown hk (references_methodEntrypoint hinfo) ⟨_, "generic dictionary"⟩ ?_
    rw [if_neg hargs]
    exact List.mem_cons_of_mem _ (List.mem_singleton.mpr rfl)
  body := hbody
  base hk hinfo hb := by
    refine hown hk (references_typeDescriptor hinfo) ⟨_, "base type"⟩ (List.mem_append_left _ ?_)
    exact List.mem_map.mpr ⟨_, Option.mem_toList.mpr hb, rfl⟩
  typeDictionary hk hinfo hargs := by
    refine hown hk (references_typeDescriptor hinfo) ⟨_, "generic dictionary"⟩ ?_
    rw [if_neg hargs]
    exact List.mem_append_right _ (List.mem_singleton.mpr rfl)
  declaring hk hinfo := hown hk (references_virtualMethodUse hinfo) _ List.mem_cons_self
  methodArgs hk hinfo a ha :=
    hown hk (references_methodDictionary hinfo) ⟨_, _⟩ (List.mem_map.mpr ⟨a, ha, rfl⟩)
  typeArgs hk hinfo a ha :=
    hown hk (references_typeDictionary hinfo) ⟨_, _⟩ (List.mem_map.mpr ⟨a, ha, rfl⟩)
  override hk hinfo o ho huse := hoverrides hk (overridesOf_typeDescriptor hinfo) o ho huse

/-- What a ready node has through its body is what the backend tells of its method. -/
theorem Sound.mem_found (hs : p.Sound s) (hr : p.Reports reported) {node : Node}
    (hn : s.node? n = some node) (hready : node.Ready) {r : Reference} :
    r ∈ node.found ↔ ∃ m, node.key = .methodEntrypoint m ∧ r ∈ reported m := by
  unfold Node.found
  split
  · rename_i m body hkey hbody
    obtain ⟨m', b, b', hkey', hb⟩ := hs.compiled n node body hn hbody
    rw [hkey] at hkey'
    cases hkey'
    simp [hr hb, hkey]
  · rename_i hnone
    refine ⟨fun h => (nomatch h), fun ⟨m, hkey, _⟩ => ?_⟩
    obtain ⟨body, hbody⟩ := Option.isSome_iff_exists.mp (hready m hkey)
    exact absurd hbody (hnone m body hkey)

/-- The nodes of keys of a set. -/
def nodesOf (s : Store β) (S : Set Key) : Set NodeId := {n | ∃ k ∈ S, s.lookup k = some n}

/-- The keys of listed nodes. -/
def keysOf (s : Store β) (ns : List NodeId) : Set Key := {k | ∃ n ∈ ns, s.lookup k = some n}

theorem Closed.closedUnder (h : p.Closed reported requests S) (hs : p.Sound s)
    (hr : p.Reports reported) : ClosedUnder (p.Answered s) (nodesOf s S) where
  edges := by
    rintro n deps ⟨k, hk, hlookup⟩ ⟨⟨node, own, hn, hown, hready, hes⟩, -⟩ e he
    obtain ⟨r, hr', hedge⟩ := exists_mem_left hes e he
    have hkey := hs.key_of_lookup hlookup hn
    refine ⟨p.key r.target, ?_, hedge.serves.lookup⟩
    rcases List.mem_append.mp hr' with hr' | hr'
    · exact h.references hk (hkey ▸ hown) r hr'
    · obtain ⟨m, hm, hr'⟩ := (hs.mem_found hr hn hready).mp hr'
      exact h.body (hm ▸ hkey ▸ hk) r hr'
  conditional := by
    rintro n deps ⟨k, hk, hlookup⟩ ⟨-, ⟨node, overrides, hn, hoverrides, hes⟩⟩ e he ⟨k', hk', hc⟩
    obtain ⟨o, ho, hedge⟩ := exists_mem_left hes e he
    have hkey := hs.key_of_lookup hlookup hn
    have hkey' : k' = .virtualMethodUse o.declaration := hs.lookup_inj hc hedge.condition
    exact ⟨_, h.overrides hk (hkey ▸ hoverrides) o ho (hkey' ▸ hk'), hedge.target⟩

theorem closed_keysOf (hs : p.Sound s) (hr : p.Reports reported) {w : Walk} {roots : List Root}
    {rs : List Reference} (hroots : p.RootedBy rs roots s)
    (h : w.Complete (p.Answered s) {n | ∃ r ∈ roots, r.node = n}) (hw : w.pending = []) :
    p.Closed reported (rs.map (·.target)) (keysOf s w.marked) := by
  refine closed_of_references ?_ ?_ ?_ ?_
  · intro r hr
    obtain ⟨r', hr', rfl⟩ := List.mem_map.mp hr
    obtain ⟨root, hroot, hserves⟩ := hroots.asked r' hr'
    exact ⟨root.node, h.roots_marked hw _ ⟨root, hroot, rfl⟩, hserves.lookup⟩
  · rintro k own ⟨n, hn, hlookup⟩ hown r hr
    obtain ⟨deps, ⟨⟨node, own', hnode, hown', -, hes⟩, -⟩, hedges, -⟩ := h.edges_marked hw hn
    rw [hs.key_of_lookup hlookup hnode, hown] at hown'
    cases hown'
    obtain ⟨e, he, hedge⟩ := exists_mem_right hes r (List.mem_append_left _ hr)
    exact ⟨e.target, hedges e he, hedge.serves.lookup⟩
  · rintro m ⟨n, hn, hlookup⟩ r hr'
    obtain ⟨deps, ⟨⟨node, own, hnode, -, hready, hes⟩, -⟩, hedges, -⟩ := h.edges_marked hw hn
    have hfound : r ∈ node.found :=
      (hs.mem_found hr hnode hready).mpr ⟨m, hs.key_of_lookup hlookup hnode, hr'⟩
    obtain ⟨e, he, hedge⟩ := exists_mem_right hes r (List.mem_append_right _ hfound)
    exact ⟨e.target, hedges e he, hedge.serves.lookup⟩
  · rintro k overrides ⟨n, hn, hlookup⟩ hoverrides o ho ⟨c, hc, hused⟩
    obtain ⟨deps, ⟨-, ⟨node, overrides', hnode, hoverrides', hes⟩⟩, -, hconditional⟩ :=
      h.edges_marked hw hn
    rw [hs.key_of_lookup hlookup hnode, hoverrides] at hoverrides'
    cases hoverrides'
    obtain ⟨e, he, hedge⟩ := exists_mem_right hes o ho
    have hcondition : e.condition = c := by
      have := hedge.condition
      rw [hused] at this
      exact (Option.some.inj this).symm
    exact ⟨e.target, hconditional e he (hcondition ▸ hc), hedge.target⟩

end Program

theorem Walk.complete_ofRoots (A : NodeId → Dependencies → Prop) (level : TrackingLevel)
    (roots : List Root) : (ofRoots level roots).Complete A {n | ∃ r ∈ roots, r.node = n} := by
  induction roots using List.reverseRecOn with
  | nil =>
    have hnone : {n | ∃ r ∈ ([] : List Root), r.node = n} = ∅ := by simp
    rw [hnone]
    exact complete_start A level
  | append_singleton roots r ih =>
    have hinsert : {n | ∃ r' ∈ roots ++ [r], r'.node = n} =
        insert r.node {n | ∃ r' ∈ roots, r'.node = n} := by
      ext n
      simp [or_comm, or_and_right, exists_or, eq_comm]
    rw [hinsert, ofRoots_concat]
    exact ih.addRoot r.node r.reason

theorem Walk.within_ofRoots {S : Set NodeId} (level : TrackingLevel) {roots : List Root}
    (h : ∀ r ∈ roots, r.node ∈ S) : (ofRoots level roots).Within S := by
  induction roots using List.reverseRecOn with
  | nil => exact within_start S level
  | append_singleton roots r ih =>
    rw [ofRoots_concat]
    have hold := ih fun r' hr' => h r' (List.mem_append_left _ hr')
    exact hold.addRoot (h r (List.mem_append_right _ (List.mem_singleton.mpr rfl))) r.reason

namespace Compilation

variable {β : Type} {c : Compilation β}

/-- What the sources ask for. -/
def requests (c : Compilation β) : List Request :=
  (c.roots.flatMap (·.references c.program.world)).map (·.target)

theorem Finished.keys_marked {x : Session β} {results : Results} (h : c.Finished x results) :
    {k | ∃ r ∈ results.marked, r.key = k} =
      Program.keysOf (c.outcome x.store).state (c.outcome x.store).walk.marked := by
  ext k
  rw [h.marked]
  constructor
  · rintro ⟨r, hr, rfl⟩
    obtain ⟨n, hn, node, hnode, rfl⟩ := mem_resultNodes.mp hr
    exact ⟨n, hn, (h.sound.lookup_iff _ _).mpr ⟨node, hnode, rfl⟩⟩
  · rintro ⟨n, hn, hlookup⟩
    obtain ⟨node, hnode, hkey⟩ := (h.sound.lookup_iff _ _).mp hlookup
    exact ⟨_, mem_resultNodes.mpr ⟨n, hn, node, hnode, rfl⟩, hkey⟩

/-- On a store in order, a run that succeeds marks the nodes of those keys that its roots need, if
these are the nodes that the sources ask for. -/
theorem Finished.isLeast_marked {reported : MethodId → List Reference}
    (hr : c.program.Reports reported) {x : Session β} {results : Results}
    (hf : c.Finished x results)
    (hroots : c.program.RootedBy (c.roots.flatMap (·.references c.program.world))
      (c.program.gather c.roots x.store).roots (c.outcome x.store).state) :
    IsLeast {S | c.program.Closed reported c.requests S}
      {k | ∃ r ∈ results.marked, r.key = k} := by
  rw [hf.keys_marked]
  constructor
  · have hcomplete := (Walk.complete_ofRoots _ c.tracking _).moves hf.moves
    exact Program.closed_keysOf hf.sound hr hroots hcomplete hf.pending
  · rintro S hS k ⟨n, hn, hk⟩
    have hrooted : ∀ root ∈ (c.program.gather c.roots x.store).roots,
        root.node ∈ Program.nodesOf (c.outcome x.store).state S := by
      intro root hroot
      obtain ⟨r, hr, hlookup⟩ := hroots.sourced root hroot
      exact ⟨_, hS.root _ (List.mem_map.mpr ⟨r, hr, rfl⟩), hlookup⟩
    have hunder := hS.closedUnder hf.sound hr
    have hwithin := (Walk.within_ofRoots c.tracking hrooted).moves hunder hf.moves
    obtain ⟨k', hk', hlookup⟩ := hwithin.marked n hn
    rwa [hf.sound.lookup_inj hk hlookup]

/-- On a store in order, a run over sources of the built-in kinds that succeeds marks the nodes of
those keys that the roots need. -/
theorem marked_keys {reported : MethodId → List Reference} (hr : c.program.Reports reported)
    (hroots : ∀ source ∈ c.roots, source.IsBuiltIn) {x : Session β}
    (hs : c.program.Sound x.store) {results : Results} (h : (c.run x).1 = .ok results) :
    IsLeast {S | c.program.Closed reported c.requests S}
      {k | ∃ r ∈ results.marked, r.key = k} := by
  have hf := run_finished hs h
  exact hf.isLeast_marked hr (hf.roots.rootedBy_of_isBuiltIn hroots)

theorem reports_script {c : Compilation CallLog} {scripts : List (MethodId × Script)}
    (hbackend : c.program.backend = Script.backend scripts) :
    c.program.Reports (Script.referencesOf scripts) := by
  intro m body b b' hb
  rw [hbackend] at hb
  simp only [Script.backend, Prod.mk.injEq] at hb
  have hb := hb.1
  unfold Script.referencesOf
  cases hscript : scripts.reverse.lookup m with
  | none =>
    rw [hscript] at hb
    cases hb
    rfl
  | some script =>
    rw [hscript] at hb
    cases script with
    | compile references =>
      cases hb
      rfl
    | fail e => cases hb

/-- A compilation by scripts, from nothing, over sources of the built-in kinds: if it succeeds, the
keys of the marked nodes are the least set that holds those of the roots and is closed under the
table. -/
theorem marked_keys_isLeast {c : Compilation CallLog} {scripts : List (MethodId × Script)}
    (hbackend : c.program.backend = Script.backend scripts)
    (hroots : ∀ source ∈ c.roots, source.IsBuiltIn) (files : Files.Tree) (transcript : Transcript)
    {results : Results} (h : (c.run ⟨.empty .empty, files, transcript⟩).1 = .ok results) :
    IsLeast {S | c.program.Closed (Script.referencesOf scripts) c.requests S}
      {k | ∃ r ∈ results.marked, r.key = k} :=
  marked_keys (reports_script hbackend) hroots (c.program.sound_empty .empty) h

/-- A base type with a virtual method in a library, and in the application a type that derives from
it, overrides the method and has a generic method with an instantiation. -/
def derivedAcross : List Declaration :=
  [.module ⟨"App", ⟨1, 0, 0, 0⟩, [], "", 0, []⟩, .module ⟨"Lib", ⟨1, 0, 0, 0⟩, [], "", 0, []⟩,
    .type ⟨1⟩ "" "Base" 0 none, .type ⟨0⟩ "" "Main" 0 (some ⟨0⟩), .method ⟨0⟩ "Run" 0 true,
    .method ⟨1⟩ "Run" 0 true, .method ⟨1⟩ "Map" 1 false, .override ⟨1⟩ ⟨⟨0⟩, ⟨1⟩⟩,
    .methodInstance ⟨2⟩ [⟨1⟩], .method ⟨1⟩ "Start" 0 false]

/-- The start calls the instantiation, which calls through the slot. -/
def callsAcross : List (MethodId × Script) :=
  [(⟨4⟩, .compile [⟨.methodEntrypoint ⟨3⟩, "call"⟩, ⟨.externSymbol "puts", "call"⟩]),
    (⟨3⟩, .compile [⟨.virtualMethodUse ⟨0⟩, "virtual call"⟩])]

def applicationAcross : Compilation CallLog where
  program := ⟨.populated derivedAcross, .modules [⟨0⟩], Script.backend callsAcross,
    ⟨.blended, false, []⟩⟩
  tracking := .all
  roots := [.entryPoint ⟨4⟩, .explicit [⟨.dataBlob "table" [1, 2], "data"⟩]]
  metadataLog := none
  dependencyLog := none
  parallel := false

theorem marked_keys_isLeast_applicationAcross :
    ∃ results, (applicationAcross.run ⟨.empty .empty, ⟨[], []⟩, .silent⟩).1 = .ok results ∧
      results.marked.map (·.key) = [.methodEntrypoint ⟨4⟩, .dataBlob "table", .typeDescriptor ⟨1⟩,
        .methodEntrypoint ⟨3⟩, .externSymbol "puts", .importedTypeDescriptor ⟨0⟩,
        .methodDictionary ⟨3⟩, .virtualMethodUse ⟨0⟩, .methodEntrypoint ⟨1⟩] ∧
      IsLeast {S | applicationAcross.program.Closed (Script.referencesOf callsAcross)
        applicationAcross.requests S} {k | ∃ r ∈ results.marked, r.key = k} := by
  have hgather : (applicationAcross.program.gather applicationAcross.roots
      (.empty .empty)).error = none := by cbv
  have hwalk : (applicationAcross.outcome (.empty .empty)).error = none := by cbv
  have hroots : ∀ source ∈ applicationAcross.roots, source.IsBuiltIn := by
    simp [applicationAcross, RootSource.IsBuiltIn]
  obtain ⟨results, h⟩ := exists_run_ok (c := applicationAcross)
    (x := ⟨.empty .empty, ⟨[], []⟩, .silent⟩) hgather hwalk
  refine ⟨results, h, ?_, marked_keys_isLeast rfl hroots _ _ h⟩
  rw [(run_ok h).2.2]
  cbv

end Compilation

end AheadOfTime
