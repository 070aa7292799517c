import GraphSchema.Node.Basic

/-!
# Faults

Why a node cannot be made, changed or taken apart.

## Main definitions

* `Node.Fault`: the causes.
* `Node.Fault.failure`: their classes and wordings.
-/

namespace GraphSchema.Node

/-- Why a node cannot be made or changed. -/
inductive Fault where
  | unknownAttribute (name : Text) (kind : Kind)
  | malformed
  | noChildRole (kind : Kind) (role : Text)
  | singleChild (kind : Kind) (role : Text) (count : Nat)
  | otherKind (expected actual : Kind)
  | fixedAttribute (name : Text) (kind : Kind)
  | lastingAttribute (name : Text) (kind : Kind)
  | noAttribute

namespace Fault

/-- The class of a fault, and its wording. -/
def failure : Fault → Failure
  | unknownAttribute name kind =>
    .badType ("Unknown attribute " ++ name ++ " for " ++ kind.label)
  | malformed => ⟨.type, none⟩
  | noChildRole kind role => .badValue (kind.label ++ " has no child role " ++ role)
  | singleChild kind role count =>
    .badValue (kind.label ++ "." ++ role ++ " holds a single node, got " ++ Text.ofNat count)
  | otherKind expected actual =>
    .badType ("Expected " ++ expected.label ++ " but got " ++ actual.label)
  | fixedAttribute name kind =>
    ⟨.attribute, some ("Cannot set attribute " ++ name ++ " of immutable node " ++ kind.label)⟩
  | lastingAttribute name kind =>
    ⟨.attribute, some ("Cannot delete attribute " ++ name ++ " of immutable node " ++ kind.label)⟩
  | noAttribute => ⟨.attribute, none⟩

end Fault

end GraphSchema.Node
