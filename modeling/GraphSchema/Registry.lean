import GraphSchema.Node.Builder
import GraphSchema.Parser.Document
import GraphSchema.Problem
import GraphSchema.Scalar.Basic

/-!
# Registries

A registry collects the definitions and extensions of schema documents by name. Some scalars and
directives are always there; the first declaration of a name counts, and may replace one of those.

## Main definitions

* `Registry`: a registry, and `Registry.empty`, the one without declarations.
* `Registry.add`, `Registry.addAll`, `Registry.merge`: declarations.
* `Registry.type?`, `Registry.extendedType?`, `Registry.directive?`: lookup.
* `Registry.toRecord`: what a registry holds.
-/

namespace GraphSchema

/-- Definitions and extensions by name. `declaredTypes` and `declaredDirectives` are the names that
were declared, and `definitions` the declarations in order. -/
structure Registry where
  types : Table Atom Node
  scalars : Table Atom Node
  directives : Table Atom Node
  extensions : TypeKind → Table Atom (List Node)
  schema : Option Node
  schemaExtensions : List Node
  declaredTypes : List Atom
  declaredDirectives : List Atom
  definitions : List Node

namespace Registry

/-- The directives that are always there. -/
def builtinDirectivesText : Text :=
"
\"Directs the executor to skip this field or fragment when the `if` argument is true.\"
directive @skip(
    \"Skipped when true.\"
    if: Boolean!
) on FIELD | FRAGMENT_SPREAD | INLINE_FRAGMENT

\"Directs the executor to include this field or fragment only when the `if` argument is true.\"
directive @include(
    \"Included when true.\"
    if: Boolean!
) on FIELD | FRAGMENT_SPREAD | INLINE_FRAGMENT

\"Marks an element of a GraphQL schema as no longer supported.\"
directive @deprecated(
    \"\"\"
    Explains why this element was deprecated, usually also including a
    suggestion for how to access supported similar data. Formatted in
    [Markdown](https://daringfireball.net/projects/markdown/).
    \"\"\"
    reason: String = \"No longer supported\"
) on FIELD_DEFINITION | ENUM_VALUE

\"Exposes a URL that specifies the behaviour of this scalar.\"
directive @specifiedBy(
    \"The URL that specifies the behaviour of this scalar.\"
    url: String!
) on SCALAR
"

/-- The name of the document that defines the directives that are always there. -/
def builtinDirectivesName : Text := "<specified directives>"

/-- The definitions of the directives that are always there. -/
def builtinDirectives : List Node :=
  match (Parser.Document.ofText builtinDirectivesText (some builtinDirectivesName) true).parse with
  | .ok document => document.childrenAt .definitions
  | .error _ => []

/-- A definition under its name. -/
def named? (n : Node) : Option (Atom × Node) := n.key.toOption.map fun name => (name, n)

/-- Nothing is declared. -/
def empty : Registry where
  types := []
  scalars := Scalar.builtins.map fun s => (.text s.name, s.definition)
  directives := builtinDirectives.filterMap named?
  extensions := fun _ => []
  schema := none
  schemaExtensions := []
  declaredTypes := []
  declaredDirectives := []
  definitions := []

/-- The sizes of the main tables. -/
def describe (r : Registry) : Text :=
  "<TypeDefinitionRegistry types=" ++ Text.ofNat r.types.length ++ " scalars="
    ++ Text.ofNat r.scalars.length ++ " directives=" ++ Text.ofNat r.directives.length ++ ">"

/-- The definition of a type, scalars included. -/
def type? (r : Registry) (name : Atom) : Option Node :=
  match r.types.get? name with
  | some n => some n
  | none => r.scalars.get? name

/-- Whether a type is defined. -/
def hasType (r : Registry) (name : Atom) : Bool := r.types.has name || r.scalars.has name

/-- The definitions of types of a kind, scalars apart. -/
def typesOf (r : Registry) (k : Kind) : List Node := r.types.values.filter fun n => n.kind.isA k

/-- The definition of a directive. -/
def directive? (r : Registry) (name : Atom) : Option Node := r.directives.get? name

/-- Whether a node defines a type whose values can be given as arguments. -/
def isInputDefinition (n : Node) : Bool :=
  match n.kind with
  | .typeDefinition k => k.isInput
  | _ => false

/-- Whether a name is that of a type whose values can be given as arguments. -/
def isInputType (r : Registry) (name : Atom) : Bool := (r.type? name).any isInputDefinition

/-- Why a node cannot be added: a problem, or adding it fails. -/
inductive Refusal where
  | problem (p : Problem)
  | failure (f : Failure)

/-- The failure of adding what is no definition. -/
def notDefinitionFailure (kind : Kind) : Failure :=
  .badType ("Expected a type system definition but got " ++ kind.label)

/-- The failure of building a registry from what is no document. -/
def notDocumentFailure (d : Data) : Failure :=
  .badType ("Expected Document but got <class '" ++ d.typeName ++ "'>")

/-- Adds a definition of a type that was not declared. A type that is no scalar takes the place of a
scalar of the same name. -/
def putType (r : Registry) (name : Atom) (n : Node) : Registry :=
  let r := { r with declaredTypes := r.declaredTypes ++ [name] }
  if n.kind = .typeDefinition .scalar then { r with scalars := r.scalars.put name n }
  else { r with scalars := r.scalars.erase name, types := r.types.put name n }

/-- Adds a definition of a type. -/
def addType (r : Registry) (name : Atom) (n : Node) : Except Refusal Registry :=
  if name ∈ r.declaredTypes then .error (.problem (.typeRedefinition n (r.type? name)))
  else .ok (r.putType name n)

/-- Adds a definition of a directive. -/
def addDirective (r : Registry) (name : Atom) (n : Node) : Except Refusal Registry :=
  if name ∈ r.declaredDirectives then
    .error (.problem (.directiveRedefinition n ((r.directive? name).getD n)))
  else
    .ok { r with
      declaredDirectives := r.declaredDirectives ++ [name]
      directives := r.directives.put name n }

/-- Adds a definition of the schema. -/
def addSchema (r : Registry) (n : Node) : Except Refusal Registry :=
  match r.schema with
  | some existing => .error (.problem (.schemaRedefinition n existing))
  | none => .ok { r with schema := some n }

/-- Adds an extension of a type. -/
def addExtension (r : Registry) (k : TypeKind) (name : Atom) (n : Node) : Registry :=
  let before := ((r.extensions k).get? name).getD []
  let table := (r.extensions k).put name (before ++ [n])
  { r with extensions := fun l => if l = k then table else r.extensions l }

/-- The name under which a node is added. -/
def nameOf (n : Node) : Except Refusal Atom := n.key.mapError .failure

/-- Adds a node to the tables that it belongs to. -/
def place (r : Registry) (n : Node) : Except Refusal Registry :=
  match n.kind with
  | .typeDefinition _ | .bare .typeDefinition => do r.addType (← nameOf n) n
  | .typeExtension k => return r.addExtension k (← nameOf n) n
  | .schemaDefinition => r.addSchema n
  | .schemaExtension => .ok { r with schemaExtensions := r.schemaExtensions ++ [n] }
  | .directiveDefinition => do r.addDirective (← nameOf n) n
  | kind => .error (.failure (notDefinitionFailure kind))

/-- Adds a definition or an extension. -/
def add (r : Registry) (n : Node) : Except Refusal Registry := do
  let r ← r.place n
  return { r with definitions := r.definitions ++ [n] }

/-- Adds nodes in order; those with problems are left out. -/
def addAll (r : Registry) : List Node → Registry × List Problem
  | [] => (r, [])
  | n :: rest =>
    match r.add n with
    | .ok r => r.addAll rest
    | .error (.problem p) =>
      let (r, ps) := r.addAll rest
      (r, p :: ps)
    | .error (.failure _) => r.addAll rest

/-- Adds the definitions of a document. -/
def addDocument (r : Registry) (document : Node) : Registry × List Problem :=
  r.addAll (document.childrenAt .definitions)

/-- Adds what was declared in another registry. -/
def merge (r other : Registry) : Registry × List Problem := r.addAll other.definitions

/-- The extensions that apply to a definition with a given name. Definitions of no particular kind
have none, and asking for them is a fault. -/
def extensionsOf (r : Registry) (name : Atom) (n : Node) : Except Failure (List Node) :=
  match n.kind with
  | .typeDefinition k => .ok (((r.extensions k).get? name).getD [])
  | _ => .error ⟨.key, none⟩

/-- A definition with the children of an extension appended, role by role. -/
def extendBy (n extension : Node) : Except Node.Fault Node :=
  n.transform fun b =>
    extension.namedChildren.foldlM (fun b entry => b.append entry.1 entry.2) b

/-- The definition of a type with the children of all its extensions appended. -/
def extendedType? (r : Registry) (name : Atom) : Except Failure (Option Node) :=
  match r.type? name with
  | none => .ok none
  | some base => do
    let extensions ← r.extensionsOf name base
    match extensions.foldlM extendBy base with
    | .ok n => return some n
    | .error fault => throw fault.failure

/-- Nodes with their names. -/
def named (t : Table Atom Node) : Data :=
  .list (t.values.map fun n => .list [n.name, n.brief])

/-- What tells nodes apart. -/
def briefs (ns : List Node) : Data := .list (ns.map Node.brief)

/-- The extensions of types of a kind with the names of the types. -/
def namedExtensions (t : Table Atom (List Node)) : Data :=
  .list (t.values.map fun ns => .list [Problem.nameOf ns.head?, briefs ns])

/-- What a registry holds, as a record. -/
def toRecord (r : Registry) : Data :=
  let extensions := TypeKind.all.filterMap fun k =>
    if (r.extensions k).isEmpty then none
    else some (k.tag ++ "_type", namedExtensions (r.extensions k))
  .record [Data.field "repr" (.text r.describe), Data.field "types" (named r.types),
    Data.field "scalars" (named r.scalars), Data.field "directives" (named r.directives),
    Data.field "schema" (.ofOption Node.brief r.schema),
    Data.field "schema_extensions" (briefs r.schemaExtensions),
    Data.field "extensions" (.record extensions)]

end Registry

end GraphSchema
