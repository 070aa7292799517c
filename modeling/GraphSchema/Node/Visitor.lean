import GraphSchema.Node.Children

/-!
# Visitors

A visitor walks over a tree from the top down, in the order of the attributes, and gives back a tree
in which nodes were replaced or left out. Where nothing below a node has changed, the node itself is
given back; where something has, only the attributes with changed children are rebuilt.
Descriptions are not visited.

## Main definitions

* `Visitor`: what to do on entering and on leaving a node.
* `Visitor.Step`: what becomes of a node that was entered.
* `Visitor.visit`: the walk.
-/

namespace GraphSchema

namespace Visitor

/-- What becomes of a node that was entered: it stays, another node takes its place, it goes, or it
stays and nothing below it is visited. -/
inductive Step where
  | keep
  | replace (n : Node)
  | drop
  | skip

/-- What became of a node and all below it. -/
inductive Outcome where
  | unchanged
  | changed (n : Node)
  | dropped

namespace Outcome

/-- Whether a node is still what it was. -/
def isUnchanged : Outcome → Bool
  | unchanged => true
  | _ => false

/-- What has taken the place of a given datum, if something has. -/
def apply (d : Data) : Outcome → Option Data
  | unchanged => some d
  | changed n => some (.node n)
  | dropped => none

end Outcome

end Visitor

/-- What to do on entering a node, before the nodes below it are visited, and on leaving it,
afterwards; what becomes of something that is no node in the place of one; and of a node whose
children cannot be replaced. -/
structure Visitor (m : Type → Type) where
  enter : Node → m Visitor.Step
  leave : Node → m Unit
  stray : Data → m Visitor.Outcome
  refuse : Node.Fault → m Node

namespace Visitor

variable {m : Type → Type} [Monad m]

/-- The children with a role after a walk, if one of them has changed. -/
def Outcome.refill? (ds : List Data) (outcomes : List Outcome) : Option (List Data) :=
  if outcomes.all isUnchanged then none
  else some ((ds.zip outcomes).filterMap fun entry => entry.2.apply entry.1)

/-- What becomes of something in the place of a child. -/
def visitPart (v : Visitor m) (walk : Node → m Outcome) : Data → m Outcome
  | .node n => walk n
  | d => v.stray d

/-- A role with its children after a walk over them, if one of them has changed. -/
def visitRole (v : Visitor m) (walk : Node → m Outcome) (entry : Role × List Data) :
    m (Option (Text × List Data)) := do
  let outcomes ← entry.2.mapM (v.visitPart walk)
  return (Outcome.refill? entry.2 outcomes).map fun ds => (entry.1.label, ds)

/-- The node after a walk over its children, if one of them has changed. -/
def visitChildren (v : Visitor m) (walk : Node → m Outcome) (n : Node) : m (Option Node) := do
  let changes ← n.namedChildren.mapM (v.visitRole walk)
  let changed := changes.filterMap id
  if changed.isEmpty then return none
  else
    match n.withChildren changed with
    | .ok visited => return some visited
    | .error fault => return some (← v.refuse fault)

/-- A walk that goes less than `depth` nodes deep; what lies deeper is left alone. -/
def walkWithin (v : Visitor m) : (depth : Nat) → Node → m Outcome
  | 0, _ => return .unchanged
  | depth + 1, n => do
    match ← v.enter n with
    | .skip => return .unchanged
    | .drop => return .dropped
    | .keep => do
      match ← v.visitChildren (v.walkWithin depth) n with
      | none => do
        v.leave n
        return .unchanged
      | some visited => do
        v.leave visited
        return .changed visited
    | .replace entered => do
      let visited := (← v.visitChildren (v.walkWithin depth) entered).getD entered
      v.leave visited
      return .changed visited

/-- Walks over a tree; `reach` says how many nodes deeper than the tree the walk may go, where nodes
are replaced by larger ones. Nothing is left if the topmost node goes. -/
def visit (v : Visitor m) (reach : Nat) (d : Data) : m (Option Data) := do
  return (← v.visitPart (v.walkWithin (d.size + reach)) d).apply d

end Visitor

end GraphSchema
