import GraphSchema.Node.Basic

/-!
# Equality of nodes

Two nodes are equal if they agree in kind, attributes and offsets, all the way down. Comments,
ignored text and the rest of the metadata do not count. A weaker comparison looks at the kind and at
the identifying attribute only.

## Main definitions

* `Node.same`, `Data.same`: equality as a test.
* `Node.sameIdentity`: one kind and one name, value or operation.
-/

namespace GraphSchema

mutual

/-- Whether two nodes agree in kind, attributes and offsets. -/
def Node.same : Node → Node → Bool
  | .mk k i slots, .mk l j others => k = l && i.span = j.span && sameSlots slots others

/-- Whether two slots agree. -/
def Slot.same : Slot → Slot → Bool
  | .mk r d, .mk q e => r = q && d.same e

/-- Whether two lists of slots agree. -/
def sameSlots : List Slot → List Slot → Bool
  | [], [] => true
  | s :: ss, t :: ts => s.same t && sameSlots ss ts
  | _, _ => false

/-- Whether two data are equal. -/
def Data.same : Data → Data → Bool
  | .atom a, .atom b => a.same b
  | .list a, .list b => sameItems a b
  | .record a, .record b => sameFields a b
  | .node a, .node b => a.same b
  | _, _ => false

/-- Whether two lists of data are equal. -/
def sameItems : List Data → List Data → Bool
  | [], [] => true
  | a :: as, b :: bs => a.same b && sameItems as bs
  | _, _ => false

/-- Whether two lists of fields are equal. -/
def sameFields : List (Text × Data) → List (Text × Data) → Bool
  | [], [] => true
  | (k, a) :: as, (l, b) :: bs => k = l && a.same b && sameFields as bs
  | _, _ => false

end

namespace Node

/-- What the attribute holds by which a node is told apart from others of its kind. -/
def identity? (n : Node) : Option Data := n.kind.identity?.map n.content

/-- Whether two nodes are of one kind and have the same identifying attribute. -/
def sameIdentity (n m : Node) : Bool :=
  n.kind = m.kind &&
    match n.identity?, m.identity? with
    | some d, some e => d.same e
    | _, _ => true

end Node

end GraphSchema
