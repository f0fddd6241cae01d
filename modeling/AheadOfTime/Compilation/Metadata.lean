import AheadOfTime.Node.Program

/-! Metadata: the types and methods that a compilation emits, each with its name and symbol. -/

namespace AheadOfTime

structure Metadata.Entry where
  name : String
  symbol : String
deriving DecidableEq

/-- By name, and by symbol among entries of one name. -/
def Metadata.Entry.le (a b : Metadata.Entry) : Bool :=
  if a.name = b.name then decide (a.symbol ≤ b.symbol) else decide (a.name ≤ b.name)

structure Metadata where
  types : List Metadata.Entry
  methods : List Metadata.Entry
deriving DecidableEq

namespace Metadata

variable {β : Type}

/-- The entry of a descriptor of this unit. -/
def ofDescriptor (p : Program β) (node : Node) : Option Entry :=
  match node.key with
  | .typeDescriptor t =>
    if p.unit.emitsType p.world t then (p.world.typeName t).toOption.map (⟨·, node.name⟩) else none
  | _ => none

/-- The entry of an entrypoint of this unit. -/
def ofEntrypoint (p : Program β) (node : Node) : Option Entry :=
  match node.key with
  | .methodEntrypoint m =>
    if p.unit.emitsMethod p.world m then (p.world.methodName m).toOption.map (⟨·, node.name⟩)
    else none
  | _ => none

def of (p : Program β) (s : Store β) (marked : List NodeId) : Metadata :=
  let nodes := marked.filterMap s.node?
  { types := (nodes.filterMap (ofDescriptor p)).mergeSort Entry.le
    methods := (nodes.filterMap (ofEntrypoint p)).mergeSort Entry.le }

def isEmpty (m : Metadata) : Bool := m.types.isEmpty && m.methods.isEmpty

def line (sort : String) (e : Entry) : String := sort ++ " " ++ e.name ++ " " ++ e.symbol ++ "\n"

/-- A line for each entry, types first. -/
def text (m : Metadata) : String :=
  String.join (m.types.map (line "type")) ++ String.join (m.methods.map (line "method"))

end Metadata

end AheadOfTime
