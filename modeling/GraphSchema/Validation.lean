import GraphSchema.Check.Schema

/-!
# Validation

A document is valid if it can be read, declares nothing twice, and passes all checks.

## Main definitions

* `Validation`: what comes of a document.
* `Validation.ofNode`: registers and checks a document that was read.
* `Validation.ofDocument`: reads, registers and checks a document.
-/

namespace GraphSchema

/-- What comes of a document: it is valid, it has problems, it cannot be read, or a callback has
failed. -/
inductive Validation where
  | valid (registry : Registry) (calls : List Call)
  | problems (problems : List Problem) (calls : List Call)
  | unreadable (e : SyntaxError)
  | failed (f : Failure)

namespace Validation

/-- Checks a document that was read. -/
def ofNode (document : Node) (wiring : Wiring) : Validation :=
  match Registry.empty.addDocument document with
  | (registry, []) =>
    match Schema.check ⟨registry, wiring⟩ with
    | .error f => .failed f
    | .ok ⟨[], calls⟩ => .valid registry calls
    | .ok ⟨ps, calls⟩ => .problems ps calls
  | (_, ps) => .problems ps []

/-- Reads and checks a document. -/
def ofDocument (d : Parser.Document) (wiring : Wiring) : Validation :=
  match d.parse with
  | .ok document => ofNode document wiring
  | .error e => .unreadable e

end Validation

end GraphSchema
