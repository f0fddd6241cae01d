import AheadOfTime.Codegen.Backend
import AheadOfTime.Graph.NodeId
import AheadOfTime.Node.Symbol

/-! The nodes of a compilation and the index that finds a node by its key. -/

namespace AheadOfTime

structure Node where
  key : Key
  /-- The symbol, also used in messages. -/
  name : String
  /-- The contents of a blob. -/
  data : Option Blob
  /-- The compiled body, once the references of the method were asked for. -/
  body : Option MethodBody

/-- The state of a compilation: nodes in the order of creation, the index, and the backend's own
state. -/
structure Store (β : Type) where
  nodes : Array Node
  index : List (Key × NodeId)
  backend : β

inductive NodeError where
  /-- There can be no node for a key. `requestedBy` names the node that asked for it. -/
  | unresolved (key : String) (requestedBy : Option String) (fault : KeyFault)
  | codegen (method : String) (cause : BackendError)
deriving DecidableEq

def NodeError.message : NodeError → String
  | .unresolved key requestedBy fault =>
    "cannot create node for " ++ key ++
      (match requestedBy with
        | some name => " (requested by `" ++ name ++ "`)"
        | none => "") ++ ": " ++ fault.message
  | .codegen method _ => "code generation failed for `" ++ method ++ "`"

namespace Store

variable {β : Type}

def empty (backend : β) : Store β := ⟨#[], [], backend⟩

def size (s : Store β) : Nat := s.nodes.size

def node? (s : Store β) (n : NodeId) : Option Node := s.nodes[n.index]?

def lookup (s : Store β) (k : Key) : Option NodeId := s.index.lookup k

/-- The name of a node; one that does not exist goes by its handle. -/
def name (s : Store β) (n : NodeId) : String :=
  match s.node? n with
  | some node => node.name
  | none => n.label

/-- Adds a node for a key that has none, unless the arena is full. -/
def add (s : Store β) (node : Node) : Option (NodeId × Store β) :=
  (NodeId.ofIndex? s.nodes.size).map fun n =>
    (n, { s with nodes := s.nodes.push node, index := (node.key, n) :: s.index })

/-- Keeps the body of a method with its node. -/
def setBody (s : Store β) (n : NodeId) (body : MethodBody) : Store β :=
  { s with nodes := s.nodes.modify n.index fun node => { node with body := some body } }

/-- Contents that are brought along have to be those that a node has. -/
def agrees (s : Store β) (n : NodeId) : Option Blob → Bool
  | some data => (s.node? n).bind Node.data = some data
  | none => true

end Store

end AheadOfTime
