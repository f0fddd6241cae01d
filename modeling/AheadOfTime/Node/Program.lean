import AheadOfTime.Graph.Basic
import AheadOfTime.Node.Store

/-! Programs as graphs of nodes. A node comes into being when it is first asked for; asking a method
for its edges compiles it, once. -/

namespace AheadOfTime

/-- What does not change while nodes are made: the world, the unit that is compiled, and how. -/
structure Program (β : Type) where
  world : World
  unit : CompilationUnit
  backend : Backend β
  settings : CodeSettings

/-- Work on a store that can fail. What it did to the store before it failed stays done. -/
abbrev Work (β α : Type) := ExceptT NodeError (StateM (Store β)) α

namespace Program

variable {β : Type}

def keyError (p : Program β) (s : Store β) (k : Key) (requestedBy : Option NodeId)
    (fault : KeyFault) : NodeError :=
  .unresolved (k.describe p.world) (requestedBy.map s.name) fault

/-- The node for a key, made if it is not there yet. -/
def obtain (p : Program β) (k : Key) (data : Option Blob) (requestedBy : Option NodeId) :
    Work β NodeId := ExceptT.mk fun s =>
  match s.lookup k with
  | some n =>
    if s.agrees n data then (.ok n, s)
    else (.error (p.keyError s k requestedBy .otherContents), s)
  | none =>
    match p.world.nodeSymbol data.isSome k with
    | .error fault => (.error (p.keyError s k requestedBy fault), s)
    | .ok name =>
      match s.add ⟨k, name, data, none⟩ with
      | some (n, s) => (.ok n, s)
      | none => (.error (p.keyError s k requestedBy .arenaFull), s)

/-- The node for a key that needs no contents. -/
def nodeFor (p : Program β) (k : Key) : Work β NodeId := p.obtain k none none

/-- The node that a request is bound to. -/
def resolve (p : Program β) (requestedBy : Option NodeId) (r : Request) : Work β NodeId :=
  p.obtain (p.unit.bind p.world r) r.data requestedBy

/-- The node with a handle. -/
def node (n : NodeId) : Work β Node := do
  match (← get).node? n with
  | some node => return node
  | none => throw (.unresolved n.label none .foreignNode)

/-- An answer of the world about an existing node. -/
def ask {α : Type} (p : Program β) (k : Key) (r : Except WorldError α) : Work β α := do
  match r with
  | .ok a => return a
  | .error e => throw (p.keyError (← get) k none (.unknown e))

/-- The edge from a node to what it refers to. -/
def edge (p : Program β) (n : NodeId) (r : Reference) : Work β Edge := do
  let target ← p.resolve (some n) r.target
  return ⟨target, r.reason⟩

/-- Runs the backend and keeps its state. -/
def runBackend (p : Program β) (name : String) (m : MethodId) : Work β MethodBody :=
  ExceptT.mk fun s =>
    match p.backend.compile p.world p.settings m s.backend with
    | (.ok body, b) => (.ok body, { s with backend := b })
    | (.error cause, b) => (.error (.codegen name cause), { s with backend := b })

/-- The body of a method, compiled if its node has none yet. -/
def body (p : Program β) (n : NodeId) (node : Node) (m : MethodId) : Work β MethodBody := do
  match node.body with
  | some body => return body
  | none =>
    let body ← p.runBackend node.name m
    modify fun s => s.setBody n body
    return body

/-- The references that only the body of a node tells. -/
def bodyReferences (p : Program β) (n : NodeId) (node : Node) : Work β (List Reference) := do
  match node.key with
  | .methodEntrypoint m => return (← p.body n node m).references
  | _ => return []

def edges (p : Program β) (n : NodeId) : Work β (List Edge) := do
  let node ← Program.node n
  let own ← p.ask node.key (p.world.references node.key)
  let ownEdges ← own.mapM (p.edge n)
  let found ← p.bodyReferences n node
  let foundEdges ← found.mapM (p.edge n)
  return ownEdges ++ foundEdges

/-- An override brings in its implementation once its slot is used. -/
def overrideEdge (p : Program β) (n : NodeId) (o : Override) : Work β ConditionalEdge := do
  let condition ← p.resolve (some n) (.virtualMethodUse o.declaration)
  let target ← p.resolve (some n) (.methodEntrypoint o.implementation)
  return ⟨target, condition, "virtual override"⟩

def conditional (p : Program β) (n : NodeId) : Work β (List ConditionalEdge) := do
  let node ← Program.node n
  let overrides ← p.ask node.key (p.world.overridesOf node.key)
  overrides.mapM (p.overrideEdge n)

def graph (p : Program β) : Graph (Store β) NodeError where
  name s := s.name
  edges n s := (p.edges n).run s
  conditional n s := (p.conditional n).run s

end Program

end AheadOfTime
