import GraphSchema.Check.Usage
import GraphSchema.Node.Directive

/-!
# Schemas

Every directive that is applied in a schema must be declared, stand where it may be used, and be
given arguments that fit. The declarations of directives are checked as well.

## Main definitions

* `Schema`: a registry and a wiring.
* `DirectivePlace`: the places at which directives are applied.
* `Schema.checkDirectives`: the directives applied to one element.
* `Schema.checkDefinitions`: the declarations of directives.
* `Schema.check`: all of a schema.
-/

namespace GraphSchema

/-- A registry with the wiring that its directives are checked with. -/
structure Schema where
  registry : Registry
  wiring : Wiring

/-- A place at which directives can be applied. -/
inductive DirectivePlace where
  | schema
  | type (kind : TypeKind)
  | field
  | argument
  | enumValue
  | inputField

namespace DirectivePlace

/-- The name of a place. -/
def label : DirectivePlace → Text
  | schema => "SCHEMA"
  | type .scalar => "SCALAR"
  | type .object => "OBJECT"
  | type .interface => "INTERFACE"
  | type .union => "UNION"
  | type .enum => "ENUM"
  | type .inputObject => "INPUT_OBJECT"
  | field => "FIELD_DEFINITION"
  | argument => "ARGUMENT_DEFINITION"
  | enumValue => "ENUM_VALUE"
  | inputField => "INPUT_FIELD_DEFINITION"

end DirectivePlace

namespace Schema

/-- An argument that was given to a directive on an element. -/
def checkGiven (s : Schema) (element : Node) (elementName : Data) (directive : Data)
    (declared : Table Atom Data) (name : Atom) (argument : Data) : Check :=
  match declared.get? name, argument with
  | some declaration, .node argument => do
    Usage.checkArgument ⟨s.registry, s.wiring, directive, element, elementName, argument⟩
      (← declaration.get .type)
  | _, _ => do Check.found (.unknownArgument element elementName directive (← argument.get .name))

/-- A declared argument that a directive on an element may lack. -/
def checkLacking (element : Node) (elementName : Data) (directive : Data)
    (given : Table Atom Data) (name : Atom) (declaration : Data) : Check := do
  Check.foundIf ((← Usage.isRequired declaration) && !given.has name)
    (.missingArgument element elementName directive (← declaration.get .name))

/-- The arguments of a directive on an element: first those that were given, then those that are
missing. Of arguments of one name the last counts, of declarations the first. -/
def checkArguments (s : Schema) (element : Node) (elementName : Data)
    (directive : Data) (definition : Node) : Check := do
  let name ← directive.get .name
  let declared := Table.ofFirst (← Usage.keyed (definition.content .arguments).items)
  let given := Table.ofLast (← Usage.keyed (← directive.get .arguments).items)
  Check.both
    (Check.each given fun entry =>
      s.checkGiven element elementName name declared entry.1 entry.2)
    (Check.each declared fun entry =>
      checkLacking element elementName name given entry.1 entry.2)

/-- The name of a place at which a directive may be used, in capitals. -/
def placeName (location : Data) : Except Failure Text := do
  match ← location.get .name with
  | .text t => return t.capital
  | _ => throw .noAttribute

/-- A directive applied to an element at a place. -/
def checkDirective (s : Schema) (location : Text) (element : Node) (elementName : Data)
    (directive : Data) : Check := do
  let name ← directive.get .name
  match s.registry.directive? (← name.key) with
  | none => Check.found (.undeclaredDirective element elementName name)
  | some definition => do
    let allowed ← (definition.content .locations).items.mapM placeName
    Check.both
      (Check.foundIf (decide (location.capital ∉ allowed))
        (.illegalLocation element elementName name location))
      (s.checkArguments element elementName directive definition)

/-- The directives applied to an element at a place. -/
def checkDirectives (s : Schema) (location : Text) (element : Node) (elementName : Data)
    (directives : List Data) : Check :=
  Check.each directives (s.checkDirective location element elementName)

/-- The directives of an element itself. -/
def checkElement (s : Schema) (place : DirectivePlace) (d : Data) : Check :=
  match d with
  | .node n => do s.checkDirectives place.label n (← n.get .name) (← n.directives)
  | _ => throw .noAttribute

/-- A field of an object or interface, and its arguments. -/
def checkField (s : Schema) (field : Data) : Check :=
  Check.both (s.checkElement .field field)
    (do Check.each (← field.get .arguments).items (s.checkElement .argument))

/-- The members of a definition or extension of a type of a given kind. -/
def checkMembers (s : Schema) (k : TypeKind) (n : Node) : Check :=
  match k with
  | .object | .interface => Check.each (n.content .fields).items s.checkField
  | .enum => Check.each (n.content .values).items (s.checkElement .enumValue)
  | .inputObject => Check.each (n.content .fields).items (s.checkElement .inputField)
  | .scalar | .union => Check.clean

/-- A definition or extension of a type, with its members. -/
def checkType (s : Schema) (k : TypeKind) (n : Node) : Check :=
  Check.both (s.checkElement (.type k) (.node n)) (s.checkMembers k n)

/-- The order in which kinds of types are checked. -/
def order : List TypeKind := [.object, .interface, .union, .enum, .scalar, .inputObject]

/-- The extensions of types of a kind. -/
def extensions (s : Schema) (k : TypeKind) : List Node :=
  (s.registry.extensions k).values.flatMap id

/-- The definitions of types of a kind. -/
def definitions (s : Schema) (k : TypeKind) : List Node :=
  if k = .scalar then s.registry.scalars.values else s.registry.typesOf (.typeDefinition k)

/-- A schema that was not defined. -/
def undefined : Node :=
  Node.mk .schemaDefinition .none
    [.datum .description .null, .children .directives [], .children .operationTypes []]

/-- The directives applied to the schema and its extensions. -/
def checkSchema (s : Schema) : Check := do
  let directives ← (s.registry.schema.toList ++ s.registry.schemaExtensions).mapM Node.directives
  s.checkDirectives DirectivePlace.schema.label (s.registry.schema.getD undefined)
    Problem.schemaElement directives.flatten

/-- What names may not begin with. -/
def reserved : Text := "__"

/-- The name of a declared directive or argument. -/
def checkName (n : Node) : Check := do
  match ← n.get .name with
  | .text t => Check.foundIf (reserved.isPrefixOf t) (.illegalName n)
  | _ => throw .noAttribute

/-- The type of a declared argument. -/
def checkInputType (s : Schema) (argument : Node) : Check := do
  let type := (← argument.get .type).innermost
  let name ← type.get .name
  match type, s.registry.type? (← name.key) with
  | .node reference, some definition =>
    Check.foundIf (!Registry.isInputDefinition definition) (.notInputType reference definition)
  | _, _ => Check.found (.missingType name argument (← argument.get .name))

/-- A declared argument of a directive. -/
def checkDeclaredArgument (s : Schema) (definition : Node) (argument : Data) : Check :=
  match argument with
  | .node argument =>
    Check.both (checkName argument)
      (Check.both (s.checkInputType argument) (do
        Check.foundIf (← argument.hasDirective definition.name)
          (.selfReference definition argument)))
  | _ => throw .noAttribute

/-- A declaration of a directive. -/
def checkDefinition (s : Schema) (definition : Node) : Check :=
  Check.both (checkName definition)
    (Check.each (definition.content .arguments).items (s.checkDeclaredArgument definition))

/-- The declarations of directives. -/
def checkDefinitions (s : Schema) : Check :=
  Check.each s.registry.directives.values s.checkDefinition

/-- All of a schema: extensions, definitions, the schema itself, and declarations of directives. -/
def check (s : Schema) : Check :=
  Check.both (Check.each order fun k => Check.each (s.extensions k) (s.checkType k))
    (Check.both (Check.each order fun k => Check.each (s.definitions k) (s.checkType k))
      (Check.both s.checkSchema s.checkDefinitions))

end Schema

end GraphSchema
