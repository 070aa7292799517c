import GraphSchema.Parser.Type
import GraphSchema.Text.Case

/-!
# Definitions and extensions

The rules for what a schema document defines: schemas, types, directives, and extensions of schemas
and types.

## Main definitions

* `Keyword`: the words that open definitions.
* `Parse.definition`: a definition or an extension.
-/

namespace GraphSchema

/-- The words that open definitions. -/
inductive Keyword where
  | schema
  | type (kind : TypeKind)
  | directive
deriving DecidableEq

namespace Keyword

/-- All words that open definitions. -/
def all : List Keyword := .schema :: TypeKind.all.map .type ++ [.directive]

/-- The spelling of a word. -/
def spelling : Keyword → Text
  | schema => "schema"
  | type .scalar => "scalar"
  | type .object => "type"
  | type .interface => "interface"
  | type .union => "union"
  | type .enum => "enum"
  | type .inputObject => "input"
  | directive => "directive"

/-- The word that a token is. -/
def ofToken? (token : Token) : Option Keyword := all.find? fun k => token.isWord k.spelling

end Keyword

namespace Parse

/-- The words that cannot be values of an enum. -/
def reservedValues : List Text := ["true", "false", "null"]

/-- The names of operations. -/
def operationNames : List Text := ["query", "mutation", "subscription"]

/-- The places at which a directive may be used. -/
def directiveLocationNames : List Text :=
  ["QUERY", "MUTATION", "SUBSCRIPTION", "FIELD", "FRAGMENT_DEFINITION", "FRAGMENT_SPREAD",
   "INLINE_FRAGMENT", "VARIABLE_DEFINITION", "SCHEMA", "SCALAR", "OBJECT", "FIELD_DEFINITION",
   "ARGUMENT_DEFINITION", "INTERFACE", "UNION", "ENUM", "ENUM_VALUE", "INPUT_OBJECT",
   "INPUT_FIELD_DEFINITION"]

/-- The string in front of a definition, if there is one. -/
def description : Parse (Option Node) := do
  if (← peek).kind.isString then return some (← stringLiteral) else return none

/-- The slot of a node that may be absent. -/
def optionalSlot (r : Role) : Option Node → Slot
  | none => .datum r .null
  | some n => .child r n

/-- The name of an operation. -/
def operationName : Parse Text := do
  let token ← expect .name
  if token.value ∈ operationNames then return token.value else unexpected token

/-- An operation and the type of its results. -/
def operationType : Parse Node := do
  let start ← peek
  let operation ← operationName
  let _ ← expect .colon
  let type ← namedType
  node start .operationTypeDefinition [.datum .operation (.text operation), .child .type type]

/-- A default for an input value, if there is one. -/
def defaultValue : Parse (Option Node) := do
  if ← skip .equals then return some (← value) else return none

/-- An argument of a field or directive, or a field of an input object. -/
def inputValue : Parse Node := do
  let start ← peek
  let description ← description
  let name ← name
  let _ ← expect .colon
  let type ← typeReference
  let default ← defaultValue
  let directives ← directives
  node start .inputValueDefinition
    [optionalSlot .description description, nameSlot name, .child .type type,
     optionalSlot .defaultValue default, .children .directives directives]

/-- The declared arguments of a field or directive. -/
def argumentDefinitions : Parse (List Node) := optionalMany .parenOpen inputValue .parenClose

/-- The fields of an input object. -/
def inputFields : Parse (List Node) := optionalMany .curlyOpen inputValue .curlyClose

/-- A field of an object or interface. -/
def field : Parse Node := do
  let start ← peek
  let description ← description
  let name ← name
  let arguments ← argumentDefinitions
  let _ ← expect .colon
  let type ← typeReference
  let directives ← directives
  node start .fieldDefinition
    [optionalSlot .description description, nameSlot name, .children .arguments arguments,
     .child .type type, .children .directives directives]

/-- The fields of an object or interface. -/
def fields : Parse (List Node) := optionalMany .curlyOpen field .curlyClose

/-- A value of an enum. -/
def enumValue : Parse Node := do
  let start ← peek
  let description ← description
  let token ← peek
  let name ← name
  if name ∈ reservedValues then failAt token (.reservedEnumValue name)
  let directives ← directives
  node start .enumValueDefinition
    [optionalSlot .description description, nameSlot name, .children .directives directives]

/-- The values of an enum. -/
def enumValues : Parse (List Node) := optionalMany .curlyOpen enumValue .curlyClose

/-- The interfaces that an object implements. -/
def interfaces : Parse (List Node) := do
  if (← peek).isWord "implements" then do
    let _ ← advance
    delimited .ampersand namedType
  else return []

/-- The members of a union. -/
def unionMembers : Parse (List Node) := do
  if ← skip .equals then delimited .pipe namedType else return []

/-- The members that a definition of a kind of types has in a role. -/
def members (k : TypeKind) : Role → Parse (List Node)
  | .interfaces => interfaces
  | .directives => directives
  | .fields => if k = .inputObject then inputFields else fields
  | .types => unionMembers
  | .values => enumValues
  | _ => return []

/-- All members of a definition of a kind of types, role by role. -/
def allMembers (k : TypeKind) : Parse (List Slot) :=
  (Kind.members k).mapM fun r => return .children r (← members k r)

/-- A definition of a type. -/
def typeDefinition (k : TypeKind) : Parse Node := do
  let start ← peek
  let description ← description
  let _ ← expectWord (Keyword.type k).spelling
  let name ← name
  let members ← allMembers k
  node start (.typeDefinition k) (optionalSlot .description description :: nameSlot name :: members)

/-- A definition of the schema. -/
def schemaDefinition : Parse Node := do
  let start ← peek
  let description ← description
  let _ ← expectWord Keyword.schema.spelling
  let directives ← directives
  let operations ← many .curlyOpen operationType .curlyClose
  node start .schemaDefinition
    [optionalSlot .description description, .children .directives directives,
     .children .operationTypes operations]

/-- A place at which a directive may be used; the case of its letters does not matter. -/
def directiveLocation : Parse Node := do
  let start ← peek
  let name ← name
  if name.capital ∈ directiveLocationNames then node start .directiveLocation [nameSlot name]
  else failAt start (.unknownLocation name)

/-- The places at which a directive may be used. -/
def directiveLocations : Parse (List Node) := delimited .pipe directiveLocation

/-- A definition of a directive. -/
def directiveDefinition : Parse Node := do
  let start ← peek
  let description ← description
  let _ ← expectWord Keyword.directive.spelling
  let _ ← expect .sign
  let name ← name
  let arguments ← argumentDefinitions
  let _ ← expectWord "on"
  let locations ← directiveLocations
  node start .directiveDefinition
    [optionalSlot .description description, nameSlot name, .children .arguments arguments,
     .children .locations locations]

/-- A definition, which a string may stand in front of. -/
def typeSystemDefinition : Parse Node := do
  let next ← peek
  let token ← if next.kind.isString then peekAt 2 else pure next
  match Keyword.ofToken? token with
  | some .schema => schemaDefinition
  | some (.type k) => typeDefinition k
  | some .directive => directiveDefinition
  | none => unexpected token

/-- The word that opens extensions. -/
def extendWord : Text := "extend"

/-- An extension must add something: without anything the next token is out of place. -/
def requireAny (slots : List Slot) : Parse Unit := do
  if slots.all fun s => s.content.nodes.isEmpty then unexpected (← peek)

/-- An extension of the schema. -/
def schemaExtension : Parse Node := do
  let start ← peek
  let _ ← expectWord extendWord
  let _ ← expectWord Keyword.schema.spelling
  let directives ← directives
  let operations ← optionalMany .curlyOpen operationType .curlyClose
  let slots := [.children .directives directives, .children .operationTypes operations]
  requireAny slots
  node start .schemaExtension slots

/-- An extension of a type. -/
def typeExtension (k : TypeKind) : Parse Node := do
  let start ← peek
  let _ ← expectWord extendWord
  let _ ← expectWord (Keyword.type k).spelling
  let name ← name
  let members ← allMembers k
  requireAny members
  node start (.typeExtension k) (nameSlot name :: members)

/-- An extension of the schema or of a type. -/
def typeSystemExtension : Parse Node := do
  let token ← peekAt 2
  match Keyword.ofToken? token with
  | some .schema => schemaExtension
  | some (.type k) => typeExtension k
  | _ => unexpected token

/-- A definition or an extension. -/
def definition : Parse Node := do
  let start ← peek
  if (Keyword.ofToken? start).isSome ∨ start.kind.isString then typeSystemDefinition
  else if start.isWord extendWord then typeSystemExtension
  else unexpected start

end Parse

end GraphSchema
