import AheadOfTime.Proofs.Compilation.Boundary
import AheadOfTime.Proofs.CompilationUnit
import AheadOfTime.Proofs.Node.Reworded

/-! Compiling every module as one unit. A unit of modules that has all modules of the world decides
like the unit of the whole program on every type and method of the world (`agrees_of_modules`). So
runs in the two units come to the same results and leave the same session, or fail alike, where an
error that is about an unknown type or method shows another key of it (`run_every_module`). -/

namespace AheadOfTime

variable {β : Type}

namespace World.WellFormed

variable {w : World} {ids : List ModuleId}

/-- The induction is on the position of the type: its arguments come before it. -/
theorem emitsType_of_modules (hw : w.WellFormed) (hids : ∀ m ∈ w.modules, m ∈ ids) {t : TypeId}
    (ht : t.index < w.types.size) : (CompilationUnit.modules ids).emitsType w t = true := by
  obtain ⟨info, hinfo⟩ := exists_typeInfo.mpr ht
  obtain ⟨a, ha⟩ := (hw.types t info hinfo).module
  have hmodule : info.module ∈ ids := by
    refine hids _ (List.mem_map.mpr ⟨info.module.index, List.mem_range.mpr ?_, rfl⟩)
    exact (Array.getElem?_eq_some_iff.mp (assembly_eq_ok.mp ha)).1
  rw [CompilationUnit.emitsType, isWithin_eq hinfo, isWithinGiven, Bool.and_eq_true]
  refine ⟨decide_eq_true hmodule, List.all_eq_true.mpr fun b hb => ?_⟩
  have hlt := args_lt hinfo b hb
  exact hw.emitsType_of_modules hids (Nat.lt_trans hlt ht)
termination_by t.index

theorem emitsMethod_of_modules (hw : w.WellFormed) (hids : ∀ m ∈ w.modules, m ∈ ids) {m : MethodId}
    (hm : m.index < w.methods.size) : (CompilationUnit.modules ids).emitsMethod w m = true := by
  obtain ⟨info, hinfo⟩ := exists_methodInfo.mpr hm
  have hfits := hw.methods m info hinfo
  rw [CompilationUnit.emitsMethod_eq hinfo, Bool.and_eq_true, List.all_eq_true]
  exact ⟨hw.emitsType_of_modules hids (exists_typeInfo.mp hfits.owner), fun a ha =>
    hw.emitsType_of_modules hids (exists_typeInfo.mp (hfits.args a ha))⟩

theorem agrees_of_modules (hw : w.WellFormed) (hids : ∀ m ∈ w.modules, m ∈ ids) :
    (CompilationUnit.modules ids).Agrees w .wholeProgram := by
  intro r hr
  cases r with
  | methodEntrypoint m | methodDictionary m => exact if_pos (hw.emitsMethod_of_modules hids hr)
  | typeHandle t | typeDictionary t => exact if_pos (hw.emitsType_of_modules hids hr)
  | virtualMethodUse m | externSymbol name | dataBlob name data => rfl

end World.WellFormed

/-- Errors of one stage that differ at most in the key of an unknown type or method. -/
inductive Compilation.Error.Reworded (w : World) : Compilation.Error → Compilation.Error → Prop where
  | settings (e : SettingsError) : Reworded w (.settings e) (.settings e)
  | roots {e e' : NodeError} (h : NodeError.Reworded w e e') : Reworded w (.roots e) (.roots e')
  | walk {e e' : WalkError NodeError} (h : WalkError.Reworded (NodeError.Reworded w) e e') :
      Reworded w (.walk e) (.walk e')

structure Gathered.Reworded (w : World) (a b : Gathered β) : Prop where
  roots : a.roots = b.roots
  store : a.store = b.store
  error : Option.Rel (NodeError.Reworded w) a.error b.error

namespace Program

variable {p : Program β} {v : CompilationUnit} {s : Store β} (hv : p.unit.Agrees p.world v)
include hv

theorem resolveRoots_reworded (hs : p.Sound s) (rs : List Reference) :
    (p.resolveRoots rs s).Reworded p.world ({ p with unit := v }.resolveRoots rs s) := by
  induction rs generalizing s with
  | nil => exact ⟨rfl, rfl, .none⟩
  | cons r rs ih =>
    obtain ⟨hsteps, hstate, hanswer⟩ := resolve_rewords hv hs none r.target
    rcases hrun : (p.resolve none r.target).run s with ⟨a, s₁⟩
    rcases hrun' : ({ p with unit := v }.resolve none r.target).run s with ⟨a', s₂⟩
    rw [hrun, hrun'] at hstate hanswer
    rw [hrun] at hsteps
    rw [resolveRoots, resolveRoots, hrun, hrun']
    cases hstate
    cases hanswer with
    | error he => exact ⟨rfl, rfl, .some he⟩
    | ok n =>
      obtain ⟨hroots, hstore, herror⟩ := ih (hs.steps hsteps)
      exact ⟨congrArg (_ :: ·) hroots, hstore, herror⟩

theorem gather_reworded (hs : p.Sound s) (sources : List RootSource) :
    (p.gather sources s).Reworded p.world ({ p with unit := v }.gather sources s) := by
  induction sources generalizing s with
  | nil => exact ⟨rfl, rfl, .none⟩
  | cons source sources ih =>
    have hprovided : (p.provide source s).Reworded p.world ({ p with unit := v }.provide source s) :=
      have h := resolveRoots_reworded hv hs (source.references p.world)
      ⟨congrArg (source.givenRoots ++ ·) h.roots, h.store, h.error⟩
    have hs₁ : p.Sound (p.provide source s).store :=
      hs.steps (resolveRoots_creates (source.references p.world) s).1.steps
    unfold gather
    dsimp only
    obtain ⟨hroots, hstore, herror⟩ := ih hs₁
    rw [hprovided.store] at hroots hstore herror
    have hfirst := hprovided.error
    cases he : (p.provide source s).error with
    | some e =>
      rw [he, Option.rel_some_left] at hfirst
      obtain ⟨e', he', -⟩ := hfirst
      rw [he']
      exact hprovided
    | none =>
      rw [he, Option.rel_none_left] at hfirst
      rw [hfirst, hprovided.roots, hprovided.store]
      exact ⟨congrArg (({ p with unit := v }.provide source s).roots ++ ·) hroots, hstore, herror⟩

/-- What is emitted of the nodes of a store is the same. -/
theorem metadata_eq (hs : p.Sound s) (marked : List NodeId) :
    Metadata.of p s marked = Metadata.of { p with unit := v } s marked := by
  have htype {t : TypeId} (ht : p.world.Has (.type t)) :
      p.unit.emitsType p.world t = v.emitsType p.world t := by
    have hbind := hv (.typeHandle t) ht
    simp only [CompilationUnit.bind] at hbind
    split at hbind <;> split at hbind <;> simp_all
  have hmethod {m : MethodId} (hm : p.world.Has (.method m)) :
      p.unit.emitsMethod p.world m = v.emitsMethod p.world m := by
    have hbind := hv (.methodEntrypoint m) hm
    simp only [CompilationUnit.bind] at hbind
    split at hbind <;> split at hbind <;> simp_all
  have hnamed : ∀ node ∈ marked.filterMap s.node?,
      p.world.nodeSymbol node.data.isSome node.key = .ok node.name := by
    intro node hnode
    obtain ⟨n, -, hn⟩ := List.mem_filterMap.mp hnode
    exact hs.named n node hn
  have htypes : ∀ node ∈ marked.filterMap s.node?, Metadata.ofDescriptor p node =
      Metadata.ofDescriptor { p with unit := v } node := by
    intro node hnode
    unfold Metadata.ofDescriptor
    split
    · rename_i t hkey
      have hhas := World.has_of_nodeSymbol (hkey ▸ hnamed node hnode) rfl
      rw [htype hhas]
    · rfl
  have hmethods : ∀ node ∈ marked.filterMap s.node?, Metadata.ofEntrypoint p node =
      Metadata.ofEntrypoint { p with unit := v } node := by
    intro node hnode
    unfold Metadata.ofEntrypoint
    split
    · rename_i m hkey
      have hhas := World.has_of_nodeSymbol (hkey ▸ hnamed node hnode) rfl
      rw [hmethod hhas]
    · rfl
  rw [Metadata.of, Metadata.of, List.filterMap_congr htypes, List.filterMap_congr hmethods]

end Program

/-- Two steps that agree where an invariant holds that the second keeps. -/
theorem iterate_eq_of_invariant {σ : Type} {I : σ → Prop} {next next' : σ → σ}
    (h : ∀ x, I x → next' x = next x ∧ I (next x)) {x : σ} (hx : I x) (n : Nat) :
    next'^[n] x = next^[n] x := by
  induction n generalizing x with
  | zero => rfl
  | succ n ih =>
    obtain ⟨hsame, hnext⟩ := h x hx
    rw [Function.iterate_succ_apply, Function.iterate_succ_apply, hsame]
    exact ih hnext

namespace Compilation

/-- The same compilation in another unit. -/
def within (c : Compilation β) (v : CompilationUnit) : Compilation β :=
  { c with program := { c.program with unit := v } }

variable {c : Compilation β} {v : CompilationUnit} {x : Session β}
  (hv : c.program.unit.Agrees c.program.world v)
include hv

theorem outcome_reworded (hx : c.program.Sound x.store) :
    (c.outcome x.store).Reworded (NodeError.Reworded c.program.world)
      ((c.within v).outcome x.store) := by
  have hgathered := Program.gather_reworded hv hx c.roots
  have hmade := hx.steps (Program.gather_creates (p := c.program) c.roots x.store).steps
  show Outcome.Reworded _ _ ((c.within v).walk
    ({ c.program with unit := v }.gather c.roots x.store).roots
    ({ c.program with unit := v }.gather c.roots x.store).store)
  rw [← hgathered.roots, ← hgathered.store]
  exact (Program.graph_rewords hv).walk_reworded c.parallel hmade

theorem finish_within (hx : c.program.Sound x.store) (w : Walk) :
    (c.within v).finish w x = c.finish w x := by
  have hmetadata : Metadata.of (c.within v).program x.store w.marked =
      Metadata.of c.program x.store w.marked := (Program.metadata_eq hv hx w.marked).symm
  unfold finish
  rw [hmetadata]
  rfl

/-- Two units that decide alike on all that the world has are compiled alike. -/
theorem run_reworded (hx : c.program.Sound x.store) :
    (c.run x).2 = ((c.within v).run x).2 ∧
      ((∃ r, (c.run x).1 = .ok r ∧ ((c.within v).run x).1 = .ok r) ∨
        ∃ e e', (c.run x).1 = .error e ∧ ((c.within v).run x).1 = .error e' ∧
          e.Reworded c.program.world e') := by
  obtain ⟨hroots, hstore, herror⟩ := Program.gather_reworded hv hx c.roots
  cases hgather : (c.program.gather c.roots x.store).error with
  | some e =>
    rw [hgather, Option.rel_some_left] at herror
    obtain ⟨e', hgather', he⟩ := herror
    rw [run_of_gather_error hgather, run_of_gather_error (c := c.within v) hgather', hstore]
    exact ⟨rfl, .inr ⟨_, _, rfl, rfl, .roots he⟩⟩
  | none =>
    rw [hgather, Option.rel_none_left] at herror
    obtain ⟨hwalk, hstate, hended⟩ := outcome_reworded hv hx
    have hlast : c.program.Sound (c.outcome x.store).state :=
      run_store hgather ▸ hx.steps (c.run_steps x)
    have hroots' : ((c.within v).program.gather (c.within v).roots x.store).roots =
        (c.program.gather c.roots x.store).roots := hroots.symm
    rw [run_eq hgather, run_eq (c := c.within v) herror, conclude, conclude, hroots', ← hwalk,
      ← hstate]
    cases hfail : (c.outcome x.store).error with
    | some e =>
      rw [hfail, Option.rel_some_left] at hended
      obtain ⟨e', hfail', he⟩ := hended
      rw [hfail']
      exact ⟨rfl, .inr ⟨_, _, rfl, rfl, .walk he⟩⟩
    | none =>
      rw [hfail, Option.rel_none_left] at hended
      rw [hended]
      dsimp only
      rw [finish_within hv (x := ⟨(c.outcome x.store).state, _, _⟩) hlast]
      exact ⟨rfl, .inl ⟨_, rfl, rfl⟩⟩

theorem runs_within (hx : c.program.Sound x.store) (runs : Nat) :
    (fun x => ((c.within v).run x).2)^[runs] x = (fun x => (c.run x).2)^[runs] x := by
  have hstep : ∀ y : Session β, c.program.Sound y.store →
      ((c.within v).run y).2 = (c.run y).2 ∧ c.program.Sound (c.run y).2.store := fun y hy =>
    ⟨(run_reworded hv hy).1.symm, hy.steps (c.run_steps y)⟩
  exact iterate_eq_of_invariant (I := fun y => c.program.Sound y.store) hstep hx runs

omit hv

/-- A compilation of a unit that lists every module of the world, and of the whole program: both
refuse the settings, or both runs give the same results, also after earlier runs, or fail at the same
stage with errors that are the same unless they are about a type or method that the world does not
have. They leave the same session in any case. -/
theorem run_every_module (ds : List Declaration) (ids : List ModuleId)
    (hids : ∀ m ∈ (World.populated ds).modules, m ∈ ids) (settings : Settings) (backend : Backend β)
    (b : β) (files : Files.Tree) (transcript : Transcript) (runs : Nat) :
    let w := World.populated ds
    (∃ e, settings.compilation w (.modules ids) backend = .error e ∧
      settings.compilation w .wholeProgram backend = .error e) ∨
    ∃ c c', settings.compilation w (.modules ids) backend = .ok c ∧
      settings.compilation w .wholeProgram backend = .ok c' ∧
      let x := (fun x => (c.run x).2)^[runs] ⟨.empty b, files, transcript⟩
      (fun x => (c'.run x).2)^[runs] ⟨.empty b, files, transcript⟩ = x ∧
      (c.run x).2 = (c'.run x).2 ∧
      ((∃ r, (c.run x).1 = .ok r ∧ (c'.run x).1 = .ok r) ∨
        ∃ e e', (c.run x).1 = .error e ∧ (c'.run x).1 = .error e' ∧ e.Reworded w e') := by
  intro w
  have hv := (World.wellFormed_populated ds).agrees_of_modules hids
  cases hcheck : settings.check with
  | error e =>
    refine .inl ⟨e, ?_, ?_⟩ <;> rw [Settings.compilation, hcheck] <;> rfl
  | ok options =>
    let c : Compilation β :=
      { program := ⟨w, .modules ids, backend, ⟨settings.optimization, settings.debugInfo, options⟩⟩
        tracking := settings.tracking
        roots := settings.roots
        metadataLog := settings.metadataLog
        dependencyLog := settings.dependencyLog
        parallel := settings.parallel }
    refine .inr ⟨c, c.within .wholeProgram, ?_, ?_, ?_⟩
    · rw [Settings.compilation, hcheck]
      rfl
    · rw [Settings.compilation, hcheck]
      rfl
    · have hempty := c.program.sound_empty b
      have hx : c.program.Sound ((fun x => (c.run x).2)^[runs] ⟨.empty b, files, transcript⟩).store :=
        hempty.steps (leadsTo_runs c runs ⟨.empty b, files, transcript⟩).steps
      exact ⟨runs_within (c := c) hv (x := ⟨.empty b, files, transcript⟩) hempty runs,
        run_reworded (c := c) hv hx⟩

/-- Settings of a compilation that keeps all reasons and writes no log. -/
def settingsFor (roots : List RootSource) : Settings where
  transcript := .silent
  tracking := .all
  roots := roots
  optimization := .blended
  debugInfo := false
  backendOptions := []
  dependencyLog := none
  metadataLog := none
  parallel := false

def everyModule (roots : List RootSource) : Compilation CallLog :=
  { applicationAcross.within (.modules [⟨1⟩, ⟨0⟩]) with roots := roots }

/-- The second root is a method that the world does not have: a list of modules shows it as one
outside, the whole program as one inside. -/
theorem run_every_module_derivedAcross :
    let w := World.populated derivedAcross
    let start : Session CallLog := ⟨.empty .empty, ⟨[], []⟩, .silent⟩
    (∀ m ∈ w.modules, m ∈ [⟨1⟩, ⟨0⟩]) ∧
    (∃ c c' r, (settingsFor [.entryPoint ⟨4⟩]).compilation w (.modules [⟨1⟩, ⟨0⟩])
        (Script.backend callsAcross) = .ok c ∧
      (settingsFor [.entryPoint ⟨4⟩]).compilation w .wholeProgram
        (Script.backend callsAcross) = .ok c' ∧
      (c.run start).1 = .ok r ∧ (c'.run start).1 = .ok r) ∧
    ∃ c c' e e', (settingsFor [.entryPoint ⟨9⟩]).compilation w (.modules [⟨1⟩, ⟨0⟩])
        (Script.backend callsAcross) = .ok c ∧
      (settingsFor [.entryPoint ⟨9⟩]).compilation w .wholeProgram
        (Script.backend callsAcross) = .ok c' ∧
      (c.run start).1 = .error e ∧ (c'.run start).1 = .error e' ∧ e.Reworded w e' ∧ e ≠ e' := by
  intro w start
  have hids : ∀ m ∈ (World.populated derivedAcross).modules, m ∈ [⟨1⟩, ⟨0⟩] := by
    decide
  have hchecked (roots : List RootSource) : (settingsFor roots).compilation w
      (.modules [⟨1⟩, ⟨0⟩]) (Script.backend callsAcross) = .ok (everyModule roots) := rfl
  refine ⟨hids, ?_, ?_⟩
  · obtain ⟨e, he, -⟩ | ⟨c, c', hc, hc', -, -, hends⟩ := run_every_module derivedAcross [⟨1⟩, ⟨0⟩]
      hids (settingsFor [.entryPoint ⟨4⟩]) (Script.backend callsAcross) .empty ⟨[], []⟩ .silent 0
    · cases (hchecked _).symm.trans he
    · cases (hchecked _).symm.trans hc
      obtain ⟨r, hr⟩ := exists_run_ok (c := everyModule [.entryPoint ⟨4⟩]) (x := start)
        (by cbv) (by cbv)
      obtain ⟨r', hr', hrun'⟩ | ⟨e, e', he, -, -⟩ := hends
      · cases hr.symm.trans hr'
        exact ⟨_, c', r, hc, hc', hr, hrun'⟩
      · cases hr.symm.trans he
  · obtain ⟨e, he, -⟩ | ⟨c, c', hc, hc', -, -, hends⟩ := run_every_module derivedAcross [⟨1⟩, ⟨0⟩]
      hids (settingsFor [.entryPoint ⟨9⟩]) (Script.backend callsAcross) .empty ⟨[], []⟩ .silent 0
    · cases (hchecked _).symm.trans he
    · cases (hchecked _).symm.trans hc
      have hchecked' : (settingsFor [.entryPoint ⟨9⟩]).compilation w .wholeProgram
          (Script.backend callsAcross) =
          .ok ((everyModule [.entryPoint ⟨9⟩]).within .wholeProgram) := rfl
      cases hchecked'.symm.trans hc'
      have hgather : ((everyModule [.entryPoint ⟨9⟩]).program.gather [.entryPoint ⟨9⟩]
          (.empty .empty)).error =
          some (.unresolved "ExternMethod(method#9)" none (.unknown (.noMethod ⟨9⟩))) := by cbv
      have hgather' : (((everyModule [.entryPoint ⟨9⟩]).within .wholeProgram).program.gather
          [.entryPoint ⟨9⟩] (.empty .empty)).error =
          some (.unresolved "MethodEntrypoint(method#9)" none (.unknown (.noMethod ⟨9⟩))) := by cbv
      have hrun := run_of_gather_error (x := start) hgather
      have hrun' := run_of_gather_error (x := start) hgather'
      obtain ⟨r, hr, -⟩ | ⟨e, e', he, he', hreworded⟩ := hends
      · cases (congrArg Prod.fst hrun).symm.trans hr
      · cases (congrArg Prod.fst hrun).symm.trans he
        cases (congrArg Prod.fst hrun').symm.trans he'
        exact ⟨_, _, _, _, hc, hc', he, he', hreworded, by simp⟩

end Compilation

end AheadOfTime
