import AheadOfTime.Proofs.Compilation.Closure
import AheadOfTime.Proofs.Compilation.Parallel
import AheadOfTime.Proofs.Marking.Asked
import AheadOfTime.Proofs.Node.Calls

/-! What is compiled. A run from nothing that succeeds has the backend compile the methods of the
marked nodes, each once and in the order of marking, and no other method: not one of another unit,
nor one that only unmarked nodes refer to. If a run fails, it had no method compiled twice. -/

namespace AheadOfTime

namespace Compilation

section Logs

variable {β : Type} {c : Compilation β} {calls : β → List MethodId} {b : β} {x : Session β}

theorem outcome_asks (c : Compilation β) (s : Store β) :
    ∃ ns, c.program.graph.Asks (.ofRoots c.tracking (c.program.gather c.roots s).roots)
      (c.program.gather c.roots s).store (c.outcome s) ns :=
  Graph.walk_asks c.parallel _ _

/-- Gathering the roots asks no node. -/
theorem gather_tally (c : Compilation β) (hlogs : c.program.backend.Logs calls)
    (hb : calls b = []) :
    c.program.Tally calls [] (c.program.gather c.roots (.empty b)).store :=
  (Program.Tally.empty c.program hb).creates hlogs (Program.gather_creates c.roots (.empty b))

theorem run_calls_nodup (hlogs : c.program.backend.Logs calls) (hb : calls b = [])
    (hx : x.store = .empty b) : (calls (c.run x).2.store.backend).Nodup := by
  have htally := gather_tally c hlogs hb
  rw [← hx] at htally
  cases hgather : (c.program.gather c.roots x.store).error with
  | some e =>
    rw [run_of_gather_error hgather]
    exact htally.nodup List.nodup_nil
  | none =>
    obtain ⟨ns, hasks⟩ := c.outcome_asks x.store
    rw [run_eq hgather, conclude_store, hasks.state]
    exact (htally.queryAll hlogs hasks.nodup).nodup hasks.nodup

theorem run_calls_eq (hlogs : c.program.backend.Logs calls) (hb : calls b = [])
    (hx : x.store = .empty b) {results : Results} (h : (c.run x).1 = .ok results) :
    calls (c.run x).2.store.backend = (results.marked.map (·.key)).filterMap Key.code? := by
  have htally := gather_tally c hlogs hb
  rw [← hx] at htally
  obtain ⟨hgather, hwalk, hmarked⟩ := run_ok h
  obtain ⟨ns, hasks⟩ := c.outcome_asks x.store
  have hfull := htally.full_nil.queryAll hlogs hasks.nodup (hasks.answered hwalk)
  rw [run_eq hgather, conclude_store, hasks.state, hfull.all, hmarked, hasks.marked hwalk,
    Walk.ofRoots_marked, ← hasks.state, resultNodes, List.map_filterMap, List.filterMap_filterMap]
  refine List.filterMap_congr fun n _ => ?_
  rw [Store.code?]
  cases Store.node? _ n <;> rfl

end Logs

theorem compiled_once {c : Compilation CallLog} {scripts : List (MethodId × Script)}
    (hbackend : c.program.backend = Script.backend scripts) (files : Files.Tree)
    (transcript : Transcript) :
    let ran := c.run ⟨.empty .empty, files, transcript⟩
    (∀ results, ran.1 = .ok results →
      ran.2.store.backend.calls = (results.marked.map (·.key)).filterMap Key.code? ∧
      ∀ m, ran.2.store.backend.count m =
        if .methodEntrypoint m ∈ results.marked.map (·.key) then 1 else 0) ∧
    ∀ e, ran.1 = .error e → ∀ m, ran.2.store.backend.count m ≤ 1 := by
  intro ran
  have hlogs : c.program.backend.Logs CallLog.calls := hbackend ▸ Script.logs_backend scripts
  have hnodup : ran.2.store.backend.calls.Nodup := run_calls_nodup hlogs rfl rfl
  refine ⟨fun results h => ?_, fun e _ m => List.nodup_iff_count_le_one.mp hnodup m⟩
  have hcalls : ran.2.store.backend.calls = (results.marked.map (·.key)).filterMap Key.code? :=
    run_calls_eq hlogs rfl rfl h
  refine ⟨hcalls, fun m => ?_⟩
  rw [CallLog.count, hnodup.count]
  refine if_congr ?_ rfl rfl
  rw [hcalls, List.mem_filterMap]
  simp only [Key.code?_eq_some, exists_eq_right]

/-- The start calls the instantiation twice and a method of another unit, and nothing calls through
the slot. -/
def callsDirectly : List (MethodId × Script) :=
  [(⟨4⟩, .compile [⟨.methodEntrypoint ⟨3⟩, "call"⟩, ⟨.methodEntrypoint ⟨0⟩, "call"⟩,
    ⟨.methodEntrypoint ⟨3⟩, "call"⟩])]

def applicationApart : Compilation CallLog where
  program := ⟨.populated derivedAcross, .modules [⟨0⟩], Script.backend callsDirectly,
    ⟨.blended, false, []⟩⟩
  tracking := .none
  roots := [.entryPoint ⟨4⟩]
  metadataLog := none
  dependencyLog := none
  parallel := false

/-- The override of the unused slot is not compiled, though there is a node for it; and a method
that was compiled ahead of a failure was compiled once. -/
theorem compiled_once_applicationApart :
    (∃ results, (applicationApart.run ⟨.empty .empty, ⟨[], []⟩, .silent⟩).1 = .ok results ∧
      let log := (applicationApart.run ⟨.empty .empty, ⟨[], []⟩, .silent⟩).2.store.backend
      log.calls = [⟨4⟩, ⟨3⟩] ∧ log.count ⟨3⟩ = 1 ∧ log.count ⟨0⟩ = 0 ∧ log.count ⟨1⟩ = 0) ∧
    ∃ e, ({ lateHandle ⟨1, by decide⟩ with parallel := true }.run
        ⟨.empty .empty, ⟨[], []⟩, .silent⟩).1 = .error e ∧
      ({ lateHandle ⟨1, by decide⟩ with parallel := true }.run
        ⟨.empty .empty, ⟨[], []⟩, .silent⟩).2.store.backend.count ⟨0⟩ ≤ 1 := by
  constructor
  · obtain ⟨results, h⟩ := exists_run_ok (c := applicationApart)
      (x := ⟨.empty .empty, ⟨[], []⟩, .silent⟩) (by cbv) (by cbv)
    have hkeys : results.marked.map (·.key) = [.methodEntrypoint ⟨4⟩, .typeDescriptor ⟨1⟩,
        .methodEntrypoint ⟨3⟩, .externMethod ⟨0⟩, .importedTypeDescriptor ⟨0⟩,
        .methodDictionary ⟨3⟩] := by
      rw [(run_ok h).2.2]
      cbv
    obtain ⟨hcalls, hcount⟩ := (compiled_once rfl ⟨[], []⟩ .silent).1 results h
    refine ⟨results, h, ?_, ?_, ?_, ?_⟩
    · rw [hcalls, hkeys]
      rfl
    all_goals
      rw [hcount, hkeys]
      rfl
  · have herror : ({ lateHandle ⟨1, by decide⟩ with parallel := true }.run
        ⟨.empty .empty, ⟨[], []⟩, .silent⟩).1 = .error (.walk _) :=
      run_of_wave_error (by cbv) (by cbv)
    exact ⟨_, herror, (compiled_once rfl ⟨[], []⟩ .silent).2 _ herror ⟨0⟩⟩

end Compilation

end AheadOfTime
