import AheadOfTime.Files.Path
import AheadOfTime.Text.Json

/-! Reports: which nodes were marked and why, as text or as Json. -/

namespace AheadOfTime

namespace Report

inductive Kind where
  /-- One reason for each node, the first. -/
  | firstMark
  /-- Every edge into each node. -/
  | fullGraph
deriving DecidableEq

def Kind.text : Kind → String
  | .firstMark => "first_mark"
  | .fullGraph => "full_graph"

structure Reason where
  /-- The name of the node that asked, none for a root. -/
  source : Option String
  /-- The name of the node that a conditional edge waited for. -/
  condition : Option String
  reason : String
deriving DecidableEq

structure Item where
  name : String
  reasons : List Reason
deriving DecidableEq

namespace Reason

def headline (r : Reason) : String :=
  match r.source with
  | some source => "required by " ++ source
  | none => "root: " ++ r.reason

def line (r : Reason) : String :=
  "    <- " ++ r.headline ++
    (match r.condition with
      | some condition => " [when " ++ condition ++ "]"
      | none => "") ++
    (if r.source.isSome then ": " ++ r.reason else "") ++ "\n"

def json (r : Reason) : Text.Json :=
  let named (name : String) (value : Option String) : List (String × Text.Json) :=
    value.toList.map fun v => (name, .string v)
  .record (named "source" r.source ++ named "condition" r.condition ++
    [("reason", .string r.reason)])

end Reason

def Item.text (i : Item) : String := i.name ++ "\n" ++ String.join (i.reasons.map Reason.line)

def Item.json (i : Item) : Text.Json :=
  .record [("name", .string i.name), ("reasons", .list (i.reasons.map Reason.json))]

end Report

/-- The marked nodes in the order of marking, each with its reasons. -/
structure Report where
  kind : Report.Kind
  items : List Report.Item
deriving DecidableEq

namespace Report

def text (r : Report) : String := String.join (r.items.map Item.text)

def json (r : Report) : String :=
  Text.Json.pretty
    (.record [("kind", .string r.kind.text), ("nodes", .list (r.items.map Item.json))])

def find? (r : Report) (name : String) : Option Item := r.items.find? (·.name = name)

def reasonCount (r : Report) : Nat := (r.items.flatMap (·.reasons)).length

/-- The form that suits a path: Json where the extension says so, else text. -/
def contentsFor (r : Report) (p : Files.Path) : String :=
  if p.extension? = some "json" then r.json else r.text

end Report

end AheadOfTime
