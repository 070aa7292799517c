import GraphSchema.Text.Basic

/-!
# Kinds of nodes

A schema document is a tree. Every node has a kind, and the kind fixes the attributes of the node:
their roles, their order, and the shape of what they hold.

## Main definitions

* `TypeKind`: the six kinds of types that a schema can define and extend.
* `Kind`: the kinds of nodes, with a name and a tag each.
* `Role`: the names of attributes.
* `Shape`, `Kind.layout`: what the attributes of a node hold.
* `Kind.identity?`: the attribute by which nodes of a kind are told apart.
* `Kind.isA`: which kinds belong to a more general one.
-/

namespace GraphSchema

/-- The kinds of types that a schema defines. -/
inductive TypeKind where
  | scalar
  | object
  | interface
  | union
  | enum
  | inputObject
deriving DecidableEq

namespace TypeKind

/-- All kinds of types. -/
def all : List TypeKind := [.scalar, .object, .interface, .union, .enum, .inputObject]

/-- The name of a kind of types. -/
def label : TypeKind → Text
  | scalar => "Scalar"
  | object => "Object"
  | interface => "Interface"
  | union => "Union"
  | enum => "Enum"
  | inputObject => "InputObject"

/-- The tag of a kind of types. -/
def tag : TypeKind → Text
  | scalar => "scalar"
  | object => "object"
  | interface => "interface"
  | union => "union"
  | enum => "enum"
  | inputObject => "input_object"

/-- Whether values of a type can be given as arguments. -/
def isInput (k : TypeKind) : Bool := k = .scalar || k = .enum || k = .inputObject

end TypeKind

/-- The groups of kinds of nodes. A node can also belong to a group without being of a more
particular kind. -/
inductive Group where
  | node
  | definition
  | value
  | type
  | typeDefinition
deriving DecidableEq

/-- The kinds of nodes. -/
inductive Kind where
  | bare (g : Group)
  | document
  | namedType
  | listType
  | nonNullType
  | intValue
  | floatValue
  | enumValue
  | stringValue
  | booleanValue
  | nullValue
  | listValue
  | objectValue
  | objectField
  | argument
  | directive
  | directiveLocation
  | schemaDefinition
  | operationTypeDefinition
  | typeDefinition (k : TypeKind)
  | fieldDefinition
  | inputValueDefinition
  | enumValueDefinition
  | schemaExtension
  | typeExtension (k : TypeKind)
  | directiveDefinition
deriving DecidableEq

/-- The names of attributes. -/
inductive Role where
  | description
  | name
  | value
  | block
  | operation
  | type
  | defaultValue
  | fields
  | values
  | types
  | interfaces
  | directives
  | arguments
  | locations
  | definitions
  | operationTypes
deriving DecidableEq

namespace Role

/-- All names of attributes. -/
def all : List Role :=
  [.description, .name, .value, .block, .operation, .type, .defaultValue, .fields, .values, .types,
   .interfaces, .directives, .arguments, .locations, .definitions, .operationTypes]

/-- The written form of the name of an attribute. -/
def label : Role → Text
  | description => "description"
  | name => "name"
  | value => "value"
  | block => "block"
  | operation => "operation"
  | type => "type"
  | defaultValue => "default_value"
  | fields => "fields"
  | values => "values"
  | types => "types"
  | interfaces => "interfaces"
  | directives => "directives"
  | arguments => "arguments"
  | locations => "locations"
  | definitions => "definitions"
  | operationTypes => "operation_types"

/-- The attribute with a given name. -/
def ofLabel? (t : Text) : Option Role := all.find? fun r => r.label = t

end Role

/-- The shape of what an attribute holds: a datum, a description, one child or children. Data that
must be given have no default, and a child that must be given is not optional. -/
inductive Shape where
  | datum (default : Option Bool)
  | description
  | child (optional : Bool)
  | children
deriving DecidableEq

namespace Shape

/-- Whether the attribute must be given when a node is made. -/
def isRequired : Shape → Bool
  | datum default => default.isNone
  | child optional => !optional
  | _ => false

/-- Whether what the attribute holds are children of the node. -/
def holdsChildren : Shape → Bool
  | child _ => true
  | children => true
  | _ => false

end Shape

namespace Kind

/-- All kinds of nodes. -/
def all : List Kind :=
  [.bare .node, .bare .definition, .bare .value, .bare .type, .bare .typeDefinition, .document,
   .namedType, .listType, .nonNullType, .intValue, .floatValue, .enumValue, .stringValue,
   .booleanValue, .nullValue, .listValue, .objectValue, .objectField, .argument, .directive,
   .directiveLocation, .schemaDefinition, .operationTypeDefinition, .fieldDefinition,
   .inputValueDefinition, .enumValueDefinition, .schemaExtension, .directiveDefinition]
    ++ TypeKind.all.map .typeDefinition ++ TypeKind.all.map .typeExtension

/-- The name of a kind. -/
def label : Kind → Text
  | bare .node => "Node"
  | bare .definition => "Definition"
  | bare .value => "Value"
  | bare .type => "Type"
  | bare .typeDefinition => "TypeDefinition"
  | document => "Document"
  | namedType => "NamedType"
  | listType => "ListType"
  | nonNullType => "NonNullType"
  | intValue => "IntValue"
  | floatValue => "FloatValue"
  | enumValue => "EnumValue"
  | stringValue => "StringValue"
  | booleanValue => "BooleanValue"
  | nullValue => "NullValue"
  | listValue => "ListValue"
  | objectValue => "ObjectValue"
  | objectField => "ObjectField"
  | argument => "Argument"
  | directive => "Directive"
  | directiveLocation => "DirectiveLocation"
  | schemaDefinition => "SchemaDefinition"
  | operationTypeDefinition => "OperationTypeDefinition"
  | typeDefinition k => k.label ++ "TypeDefinition"
  | fieldDefinition => "FieldDefinition"
  | inputValueDefinition => "InputValueDefinition"
  | enumValueDefinition => "EnumValueDefinition"
  | schemaExtension => "SchemaExtension"
  | typeExtension k => k.label ++ "TypeExtension"
  | directiveDefinition => "DirectiveDefinition"

/-- The tag of a kind, by which visitors tell nodes apart. -/
def tag : Kind → Text
  | bare _ => "node"
  | document => "document"
  | namedType => "named_type"
  | listType => "list_type"
  | nonNullType => "non_null_type"
  | intValue => "int_value"
  | floatValue => "float_value"
  | enumValue => "enum_value"
  | stringValue => "string_value"
  | booleanValue => "boolean_value"
  | nullValue => "null_value"
  | listValue => "list_value"
  | objectValue => "object_value"
  | objectField => "object_field"
  | argument => "argument"
  | directive => "directive"
  | directiveLocation => "directive_location"
  | schemaDefinition => "schema_definition"
  | operationTypeDefinition => "operation_type_definition"
  | typeDefinition k => k.tag ++ "_type_definition"
  | fieldDefinition => "field_definition"
  | inputValueDefinition => "input_value_definition"
  | enumValueDefinition => "enum_value_definition"
  | schemaExtension => "schema_extension"
  | typeExtension k => k.tag ++ "_type_extension"
  | directiveDefinition => "directive_definition"

/-- The kind with a given name. -/
def ofLabel? (t : Text) : Option Kind := all.find? fun k => k.label = t

/-- The members that types of a kind have. -/
def members : TypeKind → List Role
  | .scalar => [.directives]
  | .object => [.interfaces, .directives, .fields]
  | .interface => [.directives, .fields]
  | .union => [.directives, .types]
  | .enum => [.directives, .values]
  | .inputObject => [.directives, .fields]

/-- A name that must be given. -/
def named : Role × Shape := (.name, .datum none)

/-- Attributes that hold children. -/
def holding (roles : List Role) : List (Role × Shape) := roles.map fun r => (r, .children)

/-- The attributes of the nodes of a kind, in order. -/
def layout : Kind → List (Role × Shape)
  | bare _ => []
  | document => holding [.definitions]
  | namedType => [named]
  | listType => [(.type, .child false)]
  | nonNullType => [(.type, .child false)]
  | intValue => [(.value, .datum none)]
  | floatValue => [(.value, .datum none)]
  | enumValue => [(.value, .datum none)]
  | stringValue => [(.value, .datum none), (.block, .datum (some false))]
  | booleanValue => [(.value, .datum none)]
  | nullValue => []
  | listValue => holding [.values]
  | objectValue => holding [.fields]
  | objectField => [named, (.value, .child false)]
  | argument => [named, (.value, .child false)]
  | directive => named :: holding [.arguments]
  | directiveLocation => [named]
  | schemaDefinition => (.description, .description) :: holding [.directives, .operationTypes]
  | operationTypeDefinition => [(.operation, .datum none), (.type, .child false)]
  | typeDefinition k => (.description, .description) :: named :: holding (members k)
  | fieldDefinition =>
    [(.description, .description), named, (.arguments, .children), (.type, .child false),
     (.directives, .children)]
  | inputValueDefinition =>
    [(.description, .description), named, (.type, .child false), (.defaultValue, .child true),
     (.directives, .children)]
  | enumValueDefinition => [(.description, .description), named, (.directives, .children)]
  | schemaExtension => holding [.directives, .operationTypes]
  | typeExtension k => named :: holding (members k)
  | directiveDefinition =>
    (.description, .description) :: named :: holding [.arguments, .locations]

/-- The shape of an attribute, if nodes of the kind have it. -/
def shape? (k : Kind) (r : Role) : Option Shape :=
  (k.layout.find? fun entry => entry.1 = r).map Prod.snd

/-- Whether nodes of a kind have an attribute. -/
def has (k : Kind) (r : Role) : Bool := (k.shape? r).isSome

/-- Whether an attribute holds children. -/
def isChildRole (k : Kind) (r : Role) : Bool := (k.shape? r).any Shape.holdsChildren

/-- The attributes by which nodes are told apart. -/
def identifying : List Role := [.name, .operation, .value]

/-- The attribute by which nodes of a kind are told apart, if there is one. -/
def identity? (k : Kind) : Option Role := identifying.find? k.has

/-- Whether directives can be applied to nodes of a kind. -/
def takesDirectives : Kind → Bool
  | bare .typeDefinition => true
  | directiveDefinition => true
  | k => k.has .directives

/-- A definition or an extension of part of a schema. -/
def isDefinition : Kind → Bool
  | schemaDefinition | schemaExtension | directiveDefinition => true
  | typeDefinition _ | typeExtension _ => true
  | bare .definition | bare .typeDefinition => true
  | _ => false

/-- A literal. -/
def isValue : Kind → Bool
  | intValue | floatValue | enumValue | stringValue | booleanValue | nullValue => true
  | listValue | objectValue => true
  | bare .value => true
  | _ => false

/-- A reference to a type. -/
def isType : Kind → Bool
  | namedType | listType | nonNullType => true
  | bare .type => true
  | _ => false

/-- A definition of a type. -/
def isTypeDefinition : Kind → Bool
  | typeDefinition _ => true
  | bare .typeDefinition => true
  | _ => false

/-- Whether a kind is another one or, where the other one is a group, belongs to it. -/
def isA (k : Kind) : Kind → Bool
  | bare .node => true
  | bare .definition => k.isDefinition
  | bare .value => k.isValue
  | bare .type => k.isType
  | bare .typeDefinition => k.isTypeDefinition
  | other => k = other

end Kind

end GraphSchema
