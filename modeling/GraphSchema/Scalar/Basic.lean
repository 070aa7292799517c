import GraphSchema.Callback
import GraphSchema.Pattern.Reader
import GraphSchema.Scalar.Identifier
import GraphSchema.Scalar.Number

/-!
# Scalars

A scalar is a named type whose literals are read by a function. Five scalars are always there;
others come from patterns and callbacks.

## Main definitions

* `Scalar`: a scalar.
* `Scalar.parseLiteral`: reads a literal.
* `Scalar.builtins`: the scalars that are always there.
* `Scalar.ofPattern`, `Scalar.ofCallback`: further scalars.
-/

namespace GraphSchema

/-- A named type with a function that reads its literals. `patterned` says that the function matches
a pattern; `watched` is the label under which calls of the function are recorded, if they are. -/
structure Scalar where
  name : Text
  description : Option Text
  patterned : Bool
  watched : Option Text
  read : Data → Except Failure Data

namespace Scalar

/-- Reads a literal. Bad values and bad types become parsing failures with the same wording. -/
def parseLiteral (s : Scalar) (value : Data) : Except Failure Data :=
  match s.read value with
  | .ok d => .ok d
  | .error f => .error (if f.isRejection then ⟨.scalarParsing, some f.text⟩ else f)

/-- The calls that reading a literal makes. -/
def calls (s : Scalar) (value : Data) : List Call :=
  (s.watched.map fun label => ⟨label, value⟩).toList

/-- A definition of the scalar, as if it had been read from a document. -/
def definition (s : Scalar) : Node :=
  let description : Slot := match s.description with
    | none => .datum .description .null
    | some t => .child .description
        (Node.mk .stringValue .none [.datum .value (.text t), .datum .block (.bool true)])
  Node.mk (.typeDefinition .scalar) .none
    [description, .datum .name (.text s.name), .children .directives []]

/-- Name and sort of a scalar. -/
def describe (s : Scalar) : Text :=
  (if s.patterned then "<RegexType " else "<ScalarType ") ++ s.name ++ ">"

/-- The description of a scalar as data. -/
def descriptionData (s : Scalar) : Data := .ofOption Data.text s.description

/-- Name, sort and description of a scalar. -/
def summary (s : Scalar) : List Data := [.text s.describe, s.descriptionData]

/-- A function of the value of literals of some kinds; all else is refused. -/
def ofKinds (kinds : List Kind) (read : Data → Except Failure Data) (value : Data) :
    Except Failure Data :=
  match value.node?.filter fun n => n.kind ∈ kinds with
  | some n => read (n.content .value)
  | none => .error (.badType ("Invalid literal " ++ value.typeName))

/-- A scalar of this library. -/
def native (name description : Text) (kinds : List Kind) (read : Data → Except Failure Data) :
    Scalar :=
  ⟨name, some description, false, none, ofKinds kinds read⟩

/-- 32-bit signed integers. -/
def int : Scalar :=
  native "Int"
    ("The `Int` scalar type represents non-fractional signed whole numeric "
      ++ "values. Int can represent values between -(2^31) and 2^31 - 1.")
    [.intValue] fun d => (coerceInt d).map .int

/-- Floating-point numbers. -/
def float : Scalar :=
  native "Float"
    ("The `Float` scalar type represents signed double-precision fractional values as specified by "
      ++ "[IEEE 754](http://en.wikipedia.org/wiki/IEEE_floating_point).")
    [.floatValue, .intValue] fun d => (coerceFloat d).map .float

/-- Texts. -/
def string : Scalar :=
  native "String"
    ("The `String` scalar type represents textual data, represented as UTF-8 character sequences. "
      ++ "The String type is most often used by GraphQL to represent free-form human-readable "
      ++ "text.")
    [.stringValue] fun d => .ok (.text d.display)

/-- Truth values. -/
def boolean : Scalar :=
  native "Boolean" "The `Boolean` scalar type represents `true` or `false`."
    [.booleanValue] fun d => .ok (.bool d.truth)

/-- Identifiers of any form. -/
def id : Scalar :=
  native "ID"
    ("The `ID` scalar type represents a unique identifier, often used to refetch an object or as "
      ++ "key for a cache. The ID type appears in a JSON response as a String; however, it is not "
      ++ "intended to be human-readable. When expected as an input type, any string (such as "
      ++ "`\"4\"`) or integer (such as `4`) input value will be accepted as an ID.")
    [.stringValue, .intValue] fun d => .ok (.text d.display)

/-- The scalars that are always there. -/
def builtins : List Scalar := [int, float, string, boolean, id]

/-- The canonical form of the universal identifier that a datum stands for. -/
def readIdentifier (d : Data) : Except Failure Data :=
  match d with
  | .text t => (Identifier.read t).map fun n => .text (Identifier.display n)
  | .null => .error (.badType
      "one of the hex, bytes, bytes_le, fields, or int arguments must be given")
  | _ => .error ⟨.attribute, none⟩

/-- Universal identifiers; not always there. -/
def uuid : Scalar :=
  native "UUID"
    ("The `UUID` scalar type represents a UUID as specified in [RFC 4122]"
      ++ "(https://tools.ietf.org/html/rfc4122)")
    [.stringValue] readIdentifier

/-- The text of a datum, which a pattern must accept. -/
def readMatching (written : Text) (matching : Pattern.Sensitivity) (d : Data) :
    Except Failure Data :=
  match d with
  | .text t =>
    if (Pattern.ofText written).accepts matching t then .ok d
    else .error (.badValue
      ("\"" ++ t ++ "\" does not match pattern \"" ++ written ++ "\""))
  | d => .error (.badType
      ("expected string or bytes-like object, got " ++ "'" ++ d.typeName ++ "'"))

/-- The scalar of the strings that a pattern accepts. -/
def ofPattern (name written : Text) (matching : Pattern.Sensitivity) (description : Option Text) :
    Scalar :=
  ⟨name, some (description.getD ("String matching pattern /" ++ written ++ "/")), true, none,
   ofKinds [.stringValue] (readMatching written matching)⟩

/-- The scalar whose literals are read by a callback. -/
def ofCallback (name : Text) (c : Callback) (description : Option Text) : Scalar :=
  ⟨name, description, false, some c.label, c.run⟩

end Scalar

end GraphSchema
