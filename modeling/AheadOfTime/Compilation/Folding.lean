import AheadOfTime.Node.Store

/-! Folding: of the marked blobs with the same contents the first keeps storage of its own, and the
others share it. Every other node keeps storage of its own. -/

namespace AheadOfTime

structure Folding where
  /-- Nodes with storage of their own, in the order of marking. -/
  kept : List NodeId
  /-- The other nodes, each with the one whose storage it shares. -/
  shared : List (NodeId × NodeId)

namespace Folding

def empty : Folding := ⟨[], []⟩

def keep (f : Folding) (n : NodeId) : Folding := { f with kept := f.kept ++ [n] }

/-- Lets a node share the storage of another, unless it shares some already. -/
def share (f : Folding) (n owner : NodeId) : Folding :=
  match f.shared.lookup n with
  | some _ => f
  | none => { f with shared := f.shared ++ [(n, owner)] }

/-- The node whose storage a node shares. -/
def owner? (f : Folding) (n : NodeId) : Option NodeId := f.shared.lookup n

/-- The sharing nodes by their handles. -/
def entries (f : Folding) : List (NodeId × NodeId) :=
  f.shared.mergeSort fun a b => a.1.index ≤ b.1.index

/-- A folding under way, with the owner of each contents met so far. -/
structure State where
  folding : Folding
  owners : List (Blob × NodeId)

/-- Takes in the next node; a handle without a node is passed over. -/
def step {β : Type} (s : Store β) (f : State) (n : NodeId) : State :=
  match s.node? n with
  | none => f
  | some node =>
    if node.key.isImportCell || !node.key.isShareable then { f with folding := f.folding.keep n }
    else
      let contents := node.data.getD []
      match f.owners.lookup contents with
      | some owner => { f with folding := f.folding.share n owner }
      | none => { folding := f.folding.keep n, owners := f.owners ++ [(contents, n)] }

def of {β : Type} (s : Store β) (marked : List NodeId) : Folding :=
  (marked.foldl (step s) ⟨empty, []⟩).folding

end Folding

end AheadOfTime
