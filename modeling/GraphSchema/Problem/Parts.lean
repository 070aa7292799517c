import GraphSchema.Problem

/-!
# Problems from parts

A problem can be made from the name of its class and its parts, which come in a fixed order.

## Main definitions

* `Problem.ofParts`: the problem of a class with given parts.
* `Problem.recordOf`: the record of a problem, or of an error that is no problem of a schema.
-/

namespace GraphSchema.Problem

/-- A part that is a node or unknown; anything else does not say where it stands. -/
def nodePart (d : Data) : Except Failure (Option Node) :=
  match d with
  | .null => .ok none
  | .node n => .ok (some n)
  | _ => .error .noAttribute

/-- A part that is a node with a name. -/
def namedPart (d : Data) : Except Failure Node :=
  match d with
  | .node n => (n.get .name).map fun _ => n
  | _ => .error .noAttribute

/-- A part that is a text. -/
def textPart (d : Data) : Except Failure Data :=
  match d with
  | .text t => .ok (.text t)
  | _ => .error .unfit

/-- The problem of two nodes that may be unknown. -/
def ofNodes (make : Option Node → Option Node → Problem) : List Data → Except Failure Problem
  | [a, b] => return make (← nodePart a) (← nodePart b)
  | _ => .error .unfit

/-- The problem of two nodes with names. -/
def ofNamed (make : Node → Node → Problem) : List Data → Except Failure Problem
  | [a, b] => return make (← namedPart a) (← namedPart b)
  | _ => .error .unfit

/-- The problem of an element that uses a directive with an argument or at a place. -/
def ofUse (make : Option Node → Data → Data → Data → Problem) :
    List Data → Except Failure Problem
  | [n, e, d, x] => return make (← nodePart n) e d x
  | _ => .error .unfit

/-- The problem of a value that does not fit. -/
def ofValue (m : Mismatch) : List Data → Except Failure Problem
  | [n, e, d, a, detail] => return .badValue m (← nodePart n) e d a detail .null
  | [n, e, d, a, detail, value] => return .badValue m (← nodePart n) e d a detail value
  | _ => .error .unfit

/-- The problem of a class with given parts. -/
def ofParts (label : Text) (parts : List Data) : Except Failure Problem :=
  match Mismatch.all.find? fun m => m.label = label with
  | some m => ofValue m parts
  | none =>
    if label = "TypeRedefinitionError" then ofNodes typeRedefinition parts
    else if label = "DirectiveRedefinitionError" then ofNamed directiveRedefinition parts
    else if label = "SchemaRedefinitionError" then ofNodes schemaRedefinition parts
    else if label = "DirectiveIllegalLocationError" then ofUse illegalLocation parts
    else if label = "DirectiveUnknownArgumentError" then ofUse unknownArgument parts
    else if label = "DirectiveMissingNonNullArgumentError" then ofUse missingArgument parts
    else if label = "DirectiveIllegalReferenceError" then ofNamed selfReference parts
    else
      match parts with
      | [a] =>
        if label = "SDLError" then return .general (← textPart a) none .null
        else if label = "IllegalNameError" then return .illegalName (← nodePart a)
        else throw .unfit
      | [a, b] =>
        if label = "SDLError" then return .general (← textPart a) (← nodePart b) .null
        else if label = "NotAnInputTypeError" then
          return .notInputType (← namedPart a) (← nodePart b)
        else throw .unfit
      | [a, b, c] =>
        if label = "SDLError" then return .general (← textPart a) (← nodePart b) c
        else if label = "DirectiveUndeclaredError" then
          return .undeclaredDirective (← nodePart a) b c
        else if label = "MissingTypeError" then return .missingType a (← nodePart b) c
        else throw .unfit
      | _ => throw .unfit

/-- The nodes of a part that is a list of nodes or missing. -/
def nodesPart (d : Data) : Except Failure (List Node) :=
  match d with
  | .list ds => ds.mapM fun d =>
    match d with
    | .node n => .ok n
    | _ => .error .noAttribute
  | d => if d.truth then .error .unfit else .ok []

/-- The record of an error of a class with given parts. An error that is no problem of a schema has
a message, and perhaps nodes that it is about. -/
def recordOf (label : Text) (parts : List Data) (described : Bool) : Except Failure Data :=
  if label = "GraphQLError" ∨ label = "ScalarParsingError" then
    match parts with
    | [] => return .record [Data.field "error" (.text label), Data.field "message" (.text [])]
    | [message] => return .record [Data.field "error" (.text label), Data.field "message" message]
    | _ => throw .unfit
  else if label = "GraphQLLocatedError" then
    match parts with
    | message :: rest => do
      if 1 < rest.length then throw .unfit
      let nodes ← nodesPart (rest.head?.getD .null)
      let message ← textPart message
      return .record [Data.field "error" (.text label), Data.field "message" message,
        Data.field "to_dict" (located message nodes)]
    | [] => throw .unfit
  else if label = "SchemaProblem" then
    match parts with
    | [.list []] => return .record (entriesOf described [])
    | _ => throw .unfit
  else return (← ofParts label parts).toRecord described

end GraphSchema.Problem
