import GraphSchema.Node.Equality

/-!
# Directives of a node

The directives that are applied to an element of a schema, and those among them with a given name.

## Main definitions

* `Node.directives`: the directives applied to a node.
* `Node.hasDirective`, `Node.directivesNamed`: directives by name.
-/

namespace GraphSchema.Node

/-- The directives applied to a node. -/
def directives (n : Node) : Except Failure (List Data) := return (← n.get .directives).items

/-- Whether something has a given name. -/
def isNamed (name d : Data) : Except Failure Bool := return (← d.get .name).same name

/-- Whether a directive of a given name is applied to a node. -/
def hasDirective (n : Node) (name : Data) : Except Failure Bool := do
  (← n.directives).anyM (isNamed name)

/-- The directives of a given name that are applied to a node, in order. -/
def directivesNamed (n : Node) (name : Data) : Except Failure (List Data) := do
  (← n.directives).filterM (isNamed name)

end GraphSchema.Node
