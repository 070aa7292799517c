import GraphSchema.Parser.Value

/-!
# References to types

The rules for names of types, in list and non-null wrappers.

## Main definitions

* `Parse.typeReference`: a reference to a type.
-/

namespace GraphSchema.Parse

/-- The name of a type. -/
def namedType : Parse Node := do
  let start ← peek
  let name ← name
  node start .namedType [nameSlot name]

/-- A reference to a type; what stands in brackets is read by `item`. -/
def typeOf (item : Parse Node) : Parse Node := do
  let start ← peek
  let type ←
    if ← skip .bracketOpen then do
      let inner ← item
      let _ ← expect .bracketClose
      node start .listType [.child .type inner]
    else namedType
  if ← skip .exclamationMark then node start .nonNullType [.child .type type] else return type

/-- A reference to a type that is nested less than `depth` deep. -/
def typeWithin : (depth : Nat) → Parse Node
  | 0 => failAtEnd
  | depth + 1 => typeOf (typeWithin depth)

/-- A reference to a type. -/
def typeReference : Parse Node := do typeWithin (← read).budget

end GraphSchema.Parse
