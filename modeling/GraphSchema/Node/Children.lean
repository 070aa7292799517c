import GraphSchema.Node.Fault

/-!
# Children

What the attributes of a node hold are its children, descriptions and data apart. They are read and
replaced by role. Nodes that were read from a document have nodes as children; other nodes may have
anything in their place.

Whether a role holds one child or several is read off the layout of the kind. What the role holds
says the same: nodes are built with sequences where there are several children, and only there. A
list that was given in the place of a single child is not such a sequence; it counts as one child
that is no node.

## Main definitions

* `Node.namedChildren`, `Node.children`: the children, by role or in one list.
* `Node.hasStray`: whether something that is no node stands in the place of a child.
* `Node.withChildren`: a copy with other children in some roles.
-/

namespace GraphSchema

/-- The children that a slot of a given shape holds: those in a sequence, or a single one. -/
def Slot.parts (shape : Shape) (s : Slot) : List Data :=
  if shape = .children then s.content.items
  else if s.content.isNull then [] else [s.content]

namespace Node

/-- The shape of the attributes with a role in nodes of a kind. -/
def shapeAt (k : Kind) (r : Role) : Shape := (k.shape? r).getD .children

/-- The slots that hold children. -/
def childSlots (n : Node) : List Slot := n.slots.filter fun s => n.kind.isChildRole s.role

/-- The children by role, in the order of the attributes; a single child is a list of one. -/
def namedChildren (n : Node) : List (Role × List Data) :=
  n.childSlots.map fun s => (s.role, s.parts (shapeAt n.kind s.role))

/-- The children in order. -/
def children (n : Node) : List Node :=
  n.namedChildren.flatMap fun entry => entry.2.filterMap Data.node?

/-- Whether something that is no node stands in the place of a child. -/
def hasStray (n : Node) : Bool :=
  n.namedChildren.any fun entry => entry.2.any fun d => d.node?.isNone

/-- A slot with other children: a role that holds one child gets the only one, or nothing. -/
def refill (shape : Shape) (r : Role) (ds : List Data) : Slot :=
  if shape = .children then .mk r (.list ds) else .mk r (ds.head?.getD .null)

/-- Puts a slot in the place of the one with the same role. -/
def putSlot (s : Slot) : List Slot → List Slot
  | [] => [s]
  | t :: rest => if t.role = s.role then s :: rest else t :: putSlot s rest

/-- A slot for other children, if nodes of the kind have the role and the role has room for them. -/
def slotFor (k : Kind) (name : Text) (ds : List Data) : Except Fault Slot :=
  match (Role.ofLabel? name).filter k.isChildRole with
  | none => .error (.noChildRole k name)
  | some r =>
    if shapeAt k r ≠ .children ∧ 1 < ds.length then .error (.singleChild k name ds.length)
    else .ok (refill (shapeAt k r) r ds)

/-- A copy of a node with other children in the given roles; the other roles keep theirs. -/
def withChildren (n : Node) (new : Table Text (List Data)) : Except Fault Node := do
  let slots ← new.mapM fun entry => slotFor n.kind entry.1 entry.2
  return n.withSlots (slots.foldl (fun all s => putSlot s all) n.slots)

end Node

end GraphSchema
