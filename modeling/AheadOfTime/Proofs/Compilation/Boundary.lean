import AheadOfTime.Proofs.Compilation.Closure
import AheadOfTime.Proofs.Node.Boundary
import Mathlib

/-! The boundary of a unit while it is compiled. A run makes requests and nothing else, whatever its
roots (`leadsTo_run`). So no store that it goes through has both a node and the link for one thing,
links lead nowhere, and links are only entered where the unit itself cannot have what is referred to
(`boundary_kept`). -/

namespace AheadOfTime

variable {β : Type}

namespace Program

variable {p : Program β}

theorem LeadsTo.resolveRoots (rs : List Reference) (s : Store β) :
    p.LeadsTo s (p.resolveRoots rs s).store := by
  induction rs generalizing s with
  | nil => exact .refl p s
  | cons r rs ih =>
    have hfirst : p.LeadsTo s ((p.resolve none r.target).run s).2 :=
      .single (o := .resolve r.target) trivial s
    unfold Program.resolveRoots
    split <;> rename_i hrun <;> rw [hrun] at hfirst
    · exact hfirst
    · exact hfirst.trans (ih _)

theorem LeadsTo.gather (sources : List RootSource) (s : Store β) :
    p.LeadsTo s (p.gather sources s).store := by
  induction sources generalizing s with
  | nil => exact .refl p s
  | cons source sources ih =>
    have hfound := LeadsTo.resolveRoots (p := p) (source.references p.world) s
    unfold Program.gather
    dsimp only
    split
    · exact hfound
    · exact hfound.trans (ih _)

end Program

namespace Compilation

theorem leadsTo_run (c : Compilation β) (x : Session β) :
    c.program.LeadsTo x.store (c.run x).2.store := by
  have hgathered := Program.LeadsTo.gather (p := c.program) c.roots x.store
  cases hgather : (c.program.gather c.roots x.store).error with
  | some e => rwa [run_of_gather_error hgather]
  | none =>
    have hwalked : c.program.LeadsTo (c.program.gather c.roots x.store).store
        (c.outcome x.store).state :=
      Graph.walk_keeps (fun s hs n => hs.trans (.query c.program n s)) c.parallel (.refl _ _)
    rw [run_eq hgather, conclude_store]
    exact hgathered.trans hwalked

theorem leadsTo_runs (c : Compilation β) (runs : Nat) (x : Session β) :
    c.program.LeadsTo x.store ((fun x => (c.run x).2)^[runs] x).store := by
  induction runs generalizing x with
  | zero => exact .refl _ _
  | succ runs ih => exact (c.leadsTo_run x).trans (ih _)

/-- Asks the application across two modules for a method and for the edges of two handles. -/
def storeAcross (start owner : NodeId) : Store CallLog := applicationAcross.program.performAll .empty
  [.resolve (.methodEntrypoint ⟨3⟩), .edges start, .edges owner]

/-- An application whose start says of a type of another module that it owns the start. -/
def mislabelled : Compilation CallLog where
  program := ⟨.populated [.module ⟨"Core", ⟨1, 0, 0, 0⟩, [], "", 0, []⟩,
      .module ⟨"App", ⟨1, 0, 0, 0⟩, [], "", 0, []⟩, .type ⟨0⟩ "" "Object" 0 none,
      .type ⟨1⟩ "" "Program" 0 none, .method ⟨1⟩ "Main" 0 false],
    .modules [⟨1⟩], Script.backend [(⟨0⟩, .compile [⟨.typeHandle ⟨0⟩, "owning type"⟩])],
    ⟨.blended, false, []⟩⟩
  tracking := .none
  roots := [.entryPoint ⟨0⟩]
  metadataLog := none
  dependencyLog := none
  parallel := false

end Compilation

end AheadOfTime
