import AheadOfTime.World.Tree

/-! Names of types and methods for people: the namespace, the name, and the arguments between
angle brackets. An open definition shows how many parameters it has. -/

namespace AheadOfTime

def TypeLabel.displayName (l : TypeLabel) : String :=
  (if l.scope = "" then "" else l.scope ++ ".") ++ l.name ++
    (if 0 < l.parameters then "`" ++ toString l.parameters else "")

/-- Names of arguments as a list, none if there are no arguments. -/
def bracketed : List String → String
  | [] => ""
  | names => "<" ++ ", ".intercalate names ++ ">"

mutual

def TypeTree.displayName : TypeTree → String
  | .node label args => label.displayName ++ bracketed (displayNames args)

def displayNames : List TypeTree → List String
  | [] => []
  | t :: ts => t.displayName :: displayNames ts

end

def MethodTree.displayName (m : MethodTree) : String :=
  m.owner.displayName ++ "." ++ m.name ++ bracketed (displayNames m.args)

namespace World

def typeName (w : World) (t : TypeId) : Except WorldError String :=
  (w.tree t).map TypeTree.displayName

def methodName (w : World) (m : MethodId) : Except WorldError String :=
  (w.methodTree m).map MethodTree.displayName

end World

end AheadOfTime
