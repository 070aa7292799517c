import GraphSchema.Node.Printer
import GraphSchema.Node.Record

/-!
# Problems

What is wrong with a schema. Problems are collected, not raised one by one.

## Main definitions

* `Problem`: a problem, with what it is about.
* `Problem.Mismatch`: the ways in which a value does not fit its type.
* `Problem.label`: the name of the class of a problem.
* `Problem.message`, `Problem.node?`, `Problem.elementName`, `Problem.details`: what it says.
* `Problem.toRecord`: the record of a problem.
-/

namespace GraphSchema

namespace Problem

/-- The ways in which the value of an argument does not fit its type. -/
inductive Mismatch where
  | general
  | null
  | list
  | object
  | duplicateKeys
  | unknownFields
  | missingField
  | enum
  | scalar
  | coercion
deriving DecidableEq

namespace Mismatch

/-- All ways in which a value does not fit. -/
def all : List Mismatch :=
  [.general, .null, .list, .object, .duplicateKeys, .unknownFields, .missingField, .enum, .scalar,
   .coercion]

/-- The name of the class of problems. -/
def label : Mismatch → Text
  | general => "BadValueError"
  | null => "BadValueNullError"
  | list => "BadValueListError"
  | object => "BadValueObjectError"
  | duplicateKeys => "BadValueDuplicateKeysError"
  | unknownFields => "BadValueUnknownFieldsError"
  | missingField => "BadValueMissingFieldError"
  | enum => "BadValueEnumError"
  | scalar => "BadValueScalarError"
  | coercion => "BadValueCoercionError"

end Mismatch

end Problem

/-- A problem. An element that uses a directive is given with its name. Nodes may be unknown, and
names may be missing or no texts. -/
inductive Problem where
  | general (message : Data) (node : Option Node) (element : Data)
  | typeRedefinition (node existing : Option Node)
  | directiveRedefinition (node existing : Node)
  | schemaRedefinition (node existing : Option Node)
  | undeclaredDirective (node : Option Node) (element directive : Data)
  | illegalLocation (node : Option Node) (element directive location : Data)
  | unknownArgument (node : Option Node) (element directive argument : Data)
  | missingArgument (node : Option Node) (element directive argument : Data)
  | illegalName (node : Option Node)
  | missingType (type : Data) (node : Option Node) (element : Data)
  | notInputType (reference : Node) (definition : Option Node)
  | selfReference (definition argument : Node)
  | badValue (mismatch : Problem.Mismatch) (node : Option Node)
      (element directive argument detail value : Data)

namespace Problem

/-- Where a node stands, if this is known. -/
def place (n : Option Node) : Text :=
  match n.bind fun n => n.info.location with
  | none => []
  | some l => " [@" ++ Text.ofInt l.line ++ ":" ++ Text.ofInt l.column ++ "]"

/-- The name of a node that may be unknown. -/
def nameOf (n : Option Node) : Data := (n.map Node.name).getD .null

/-- A datum between single quotation marks. -/
def marked (d : Data) : Text := "'" ++ d.display ++ "'"

/-- The name of an element in quotation marks, and where it stands. -/
def placed (name : Data) (n : Option Node) : Text := marked name ++ place n

/-- The wording of a problem. -/
def message : Problem → Data
  | general message _ _ => message
  | typeRedefinition node existing => .text
    (placed (nameOf node) node ++ " tried to redefine existing " ++ marked (nameOf node) ++ " type"
      ++ place existing)
  | directiveRedefinition node existing => .text
    (placed node.name node ++ " tried to redefine existing directive "
      ++ placed existing.name existing)
  | schemaRedefinition node existing => .text
    ("There is already a schema defined" ++ place existing ++ ", redefined" ++ place node)
  | undeclaredDirective node element directive => .text
    (placed element node ++ " tried to use an undeclared directive " ++ marked directive)
  | illegalLocation node element directive location => .text
    (placed element node ++ " tried to use a directive " ++ marked directive ++ " in the "
      ++ marked location ++ " location but that is illegal")
  | unknownArgument node element directive argument => .text
    (placed element node ++ " uses an unknown argument " ++ marked argument ++ " on directive "
      ++ marked directive)
  | missingArgument node element directive argument => .text
    (placed element node ++ " failed to provide a value for the non null argument "
      ++ marked argument ++ " on directive " ++ marked directive)
  | illegalName node => .text
    (placed (nameOf node) node
      ++ " must not begin with '__', which is reserved by GraphQL introspection.")
  | missingType type node element => .text
    ("The type " ++ marked type ++ " is not present when resolving type " ++ placed element node)
  | notInputType reference definition => .text
    ("The type " ++ placed reference.name reference
      ++ " is not an input type, but was used as an input type" ++ place definition)
  | selfReference definition argument => .text
    (marked definition.name ++ " must not reference itself on " ++ placed argument.name argument)
  | badValue _ node element directive argument detail _ => .text
    (placed element node ++ " uses an illegal value for the argument " ++ marked argument
      ++ " on directive " ++ marked directive ++ ". " ++ detail.display)

/-- The node that a problem is about. -/
def node? : Problem → Option Node
  | general _ node _ => node
  | typeRedefinition node _ => node
  | directiveRedefinition node _ => node
  | schemaRedefinition node _ => node
  | undeclaredDirective node _ _ => node
  | illegalLocation node _ _ _ => node
  | unknownArgument node _ _ _ => node
  | missingArgument node _ _ _ => node
  | illegalName node => node
  | missingType _ node _ => node
  | notInputType reference _ => reference
  | selfReference definition _ => definition
  | badValue _ node _ _ _ _ _ => node

/-- The name that problems of the schema as a whole go by. -/
def schemaElement : Text := "schema"

/-- The name of the element that a problem is about. -/
def elementName : Problem → Data
  | general _ _ element => element
  | typeRedefinition node _ => nameOf node
  | directiveRedefinition node _ => node.name
  | schemaRedefinition _ _ => schemaElement
  | undeclaredDirective _ element _ => element
  | illegalLocation _ element _ _ => element
  | unknownArgument _ element _ _ => element
  | missingArgument _ element _ _ => element
  | illegalName node => nameOf node
  | missingType _ _ element => element
  | notInputType reference _ => reference.name
  | selfReference definition _ => definition.name
  | badValue _ _ element _ _ _ _ => element

/-- The name of the class of a problem. -/
def label : Problem → Text
  | general _ _ _ => "SDLError"
  | typeRedefinition _ _ => "TypeRedefinitionError"
  | directiveRedefinition _ _ => "DirectiveRedefinitionError"
  | schemaRedefinition _ _ => "SchemaRedefinitionError"
  | undeclaredDirective _ _ _ => "DirectiveUndeclaredError"
  | illegalLocation _ _ _ _ => "DirectiveIllegalLocationError"
  | unknownArgument _ _ _ _ => "DirectiveUnknownArgumentError"
  | missingArgument _ _ _ _ => "DirectiveMissingNonNullArgumentError"
  | illegalName _ => "IllegalNameError"
  | missingType _ _ _ => "MissingTypeError"
  | notInputType _ _ => "NotAnInputTypeError"
  | selfReference _ _ => "DirectiveIllegalReferenceError"
  | badValue mismatch _ _ _ _ _ _ => mismatch.label

/-- The record of what tells a node apart, if it is known. -/
def briefOf (n : Option Node) : Data := .ofOption Node.brief n

/-- The details of a directive and one of its arguments. -/
def argumentDetails (directive argument : Data) : List (Text × Data) :=
  [("directive_name", directive), ("argument_name", argument)]

/-- What a problem tells besides its node and the name of its element. -/
def details : Problem → List (Text × Data)
  | typeRedefinition _ existing => [("existing", briefOf existing)]
  | directiveRedefinition _ existing => [("existing", existing.brief)]
  | schemaRedefinition _ existing => [("existing", briefOf existing)]
  | undeclaredDirective _ _ directive => [("directive_name", directive)]
  | illegalLocation _ _ directive location =>
    [("directive_name", directive), ("location", location)]
  | unknownArgument _ _ directive argument => argumentDetails directive argument
  | missingArgument _ _ directive argument => argumentDetails directive argument
  | missingType type _ _ => [("type_name", type)]
  | notInputType _ definition => [("definition", briefOf definition)]
  | selfReference _ argument => [("argument_name", argument.name)]
  | badValue _ _ _ directive argument detail value =>
    argumentDetails directive argument ++
      [Data.field "detail" detail, Data.field "value" value.brief]
  | _ => []

/-- The class of a problem and its wording in quotation marks. -/
def describe (p : Problem) : Text := "<" ++ p.label ++ " " ++ p.message.quoted ++ ">"

/-- The forms of problems in a list. -/
def describeAll (problems : List Problem) : Text :=
  "<SchemaProblem errors=[" ++ Text.intercalate ", " (problems.map describe) ++ "]>"

/-- The heading over a list of problems. -/
def summary (problems : List Problem) : Text :=
  "Invalid schema: " ++ Text.ofNat problems.length ++ " errors"

/-- The wordings of problems, one on each line. -/
def messages (problems : List Problem) : Text :=
  Text.intercalate ",\n" (problems.map fun p => p.message.display)

/-- A message and the places of the nodes that it is about, as far as there are any. -/
def located (message : Data) (nodes : List Node) : Data :=
  let places := nodes.filterMap fun n => n.info.location.map SourceLocation.toRecord
  .record ((if message.truth then [Data.field "message" message] else [])
    ++ (if places.isEmpty then [] else [Data.field "locations" (.list places)]))

/-- The record of a problem; `described` adds its form in lists. -/
def toRecord (described : Bool) (p : Problem) : Data :=
  .record ([Data.field "error" (.text p.label), Data.field "message" p.message,
    Data.field "to_dict" (located p.message p.node?.toList),
    Data.field "element_name" p.elementName, Data.field "node" (briefOf p.node?)] ++ p.details
    ++ (if described then [Data.field "repr" (.text p.describe)] else []))

/-- The entries of the record of several problems as one; `described` adds their form in a list. -/
def entriesOf (described : Bool) (problems : List Problem) : List (Text × Data) :=
  [Data.field "error" (.text "SchemaProblem"), Data.field "message" (.text (summary problems)),
    Data.field "str" (.text (messages problems)),
    Data.field "errors" (.list (problems.map (toRecord false)))]
    ++ (if described then [Data.field "repr" (.text (describeAll problems))] else [])

end Problem

end GraphSchema
