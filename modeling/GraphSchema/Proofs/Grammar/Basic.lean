import GraphSchema.Parser.Definition
import Mathlib.Data.List.Forall2

/-!
# The grammar of schema documents

Trees of schema documents, and the words that write them. A tree holds what its production asks for
and nothing else: a name that the grammar keeps from a place cannot stand there, a list that must
have a member has one, and a non-null wrapper never stands directly in another one.

A tree is written in one way, except that the members of a union, the interfaces of an object and
the places of a directive may have a delimiter in front.

## Main definitions

* `Lexeme`: a token without its place.
* `Grammar.Value`, `Grammar.TypeReference`, `Grammar.Directive`, `Grammar.Definition`,
  `Grammar.Document`: trees.
* `Grammar.Value.lexemes` and the like: the lexemes that write a tree.
* `Grammar.Document.Flattens`: a list of lexemes writes a document.
-/

namespace GraphSchema

/-- What a token says: its kind and, where the kind does not settle it, its value. -/
structure Lexeme where
  kind : Token.Kind
  value : Text
deriving DecidableEq

/-- What a token says. -/
def Token.lexeme (t : Token) : Lexeme := ⟨t.kind, t.kind.spelling?.getD t.value⟩

namespace Lexeme

/-- A lexeme whose kind settles its value. -/
def symbol (k : Token.Kind) : Lexeme := ⟨k, k.spelling?.getD []⟩

/-- A name. -/
def word (t : Text) : Lexeme := ⟨.name, t⟩

end Lexeme

namespace Grammar

open Lexeme (symbol word)

/-! ## Literals and references -/

/-- A quoted literal; `block` says that it stands between triple quotation marks. -/
structure Quoted where
  value : Text
  block : Bool

/-- A name that can be a value of an enum. -/
abbrev EnumName := { name : Text // name ∉ Parse.reservedValues }

/-- A literal. -/
inductive Value where
  | int (digits : Text)
  | float (digits : Text)
  | string (s : Quoted)
  | boolean (b : Bool)
  | null
  | enum (name : EnumName)
  | list (items : List Value)
  | object (fields : List (Text × Value))

/-- A reference to a type; `required` says that it has a non-null wrapper. -/
inductive TypeReference where
  | named (name : Text) (required : Bool)
  | list (item : TypeReference) (required : Bool)

/-- A directive that is applied to an element. -/
structure Directive where
  name : Text
  arguments : List (Text × Value)

/-! ## Members of definitions -/

/-- An argument of a field or directive, or a field of an input object. -/
structure InputValue where
  description : Option Quoted
  name : Text
  type : TypeReference
  default : Option Value
  directives : List Directive

/-- A field of an object or interface. -/
structure Field where
  description : Option Quoted
  name : Text
  arguments : List InputValue
  type : TypeReference
  directives : List Directive

/-- A value of an enum. -/
structure EnumValue where
  description : Option Quoted
  name : EnumName
  directives : List Directive

/-- An operation with the name of the type of its results. -/
structure OperationType where
  operation : { name : Text // name ∈ Parse.operationNames }
  type : Text

/-- The name of a place at which a directive may be used, in letters of any case. -/
abbrev Location := { name : Text // name.capital ∈ Parse.directiveLocationNames }

/-- What a type of some kind is made of, directives apart. -/
inductive Body where
  | scalar
  | object (interfaces : List Text) (fields : List Field)
  | interface (fields : List Field)
  | union (types : List Text)
  | enum (values : List EnumValue)
  | inputObject (fields : List InputValue)

namespace Body

/-- The kind of a type. -/
def kind : Body → TypeKind
  | scalar => .scalar
  | object _ _ => .object
  | interface _ => .interface
  | union _ => .union
  | enum _ => .enum
  | inputObject _ => .inputObject

/-- The type has no members. -/
def IsEmpty : Body → Prop
  | scalar => True
  | object interfaces fields => interfaces = [] ∧ fields = []
  | interface fields => fields = []
  | union types => types = []
  | enum values => values = []
  | inputObject fields => fields = []

end Body

/-! ## Definitions -/

/-- A definition, or an extension, which must add something and has no description. -/
inductive Definition where
  | schema (description : Option Quoted) (directives : List Directive)
      (operations : List OperationType) (nonempty : operations ≠ [])
  | type (description : Option Quoted) (name : Text) (directives : List Directive) (body : Body)
  | directive (description : Option Quoted) (name : Text) (arguments : List InputValue)
      (locations : List Location) (nonempty : locations ≠ [])
  | schemaExtension (directives : List Directive) (operations : List OperationType)
      (nonempty : directives ≠ [] ∨ operations ≠ [])
  | typeExtension (name : Text) (directives : List Directive) (body : Body)
      (nonempty : directives ≠ [] ∨ ¬body.IsEmpty)

/-- Definitions and extensions, at least one. -/
structure Document where
  definitions : List Definition
  nonempty : definitions ≠ []

/-! ## Writing -/

/-- Items between two symbols; without items nothing is written. -/
def enclosed {α : Type} (opening closing : Token.Kind) (write : α → List Lexeme) (xs : List α) :
    List Lexeme :=
  if xs.isEmpty then [] else symbol opening :: xs.flatMap write ++ [symbol closing]

/-- Items with a symbol between neighbours and, if `leading`, in front. -/
def delimited (delimiter : Token.Kind) (leading : Bool) (items : List Lexeme) : List Lexeme :=
  (if leading then [symbol delimiter] else []) ++ items.intersperse (symbol delimiter)

/-- The lexeme of a quoted literal. -/
def Quoted.lexeme (s : Quoted) : Lexeme := ⟨if s.block then .blockString else .string, s.value⟩

mutual

/-- The lexemes of a literal. -/
def Value.lexemes : Value → List Lexeme
  | .int digits => [⟨.integer, digits⟩]
  | .float digits => [⟨.float, digits⟩]
  | .string s => [s.lexeme]
  | .boolean b => [word (if b then "true" else "false")]
  | .null => [word "null"]
  | .enum name => [word name]
  | .list items => symbol .bracketOpen :: itemLexemes items ++ [symbol .bracketClose]
  | .object fields => symbol .curlyOpen :: entryLexemes fields ++ [symbol .curlyClose]

/-- The lexemes of literals in order. -/
def itemLexemes : List Value → List Lexeme
  | [] => []
  | v :: rest => v.lexemes ++ itemLexemes rest

/-- The lexemes of names with literals in order. -/
def entryLexemes : List (Text × Value) → List Lexeme
  | [] => []
  | (name, v) :: rest => word name :: symbol .colon :: v.lexemes ++ entryLexemes rest

end

/-- The lexemes of a name with a literal. -/
def entry (e : Text × Value) : List Lexeme := word e.1 :: symbol .colon :: e.2.lexemes

/-- The mark of a non-null wrapper. -/
def mark (required : Bool) : List Lexeme := if required then [symbol .exclamationMark] else []

/-- The lexemes of a reference to a type. -/
def TypeReference.lexemes : TypeReference → List Lexeme
  | named name required => word name :: mark required
  | list item required =>
    symbol .bracketOpen :: item.lexemes ++ symbol .bracketClose :: mark required

/-- The lexemes of a directive. -/
def Directive.lexemes (d : Directive) : List Lexeme :=
  symbol .sign :: word d.name :: enclosed .parenOpen .parenClose entry d.arguments

/-- The lexeme of a description, if there is one. -/
def described (description : Option Quoted) : List Lexeme := description.toList.map Quoted.lexeme

/-- A default, if there is one. -/
def defaulted : Option Value → List Lexeme
  | none => []
  | some v => symbol .equals :: v.lexemes

/-- The lexemes of directives in order. -/
def applied (directives : List Directive) : List Lexeme := directives.flatMap Directive.lexemes

/-- The lexemes of an input value. -/
def InputValue.lexemes (i : InputValue) : List Lexeme :=
  described i.description ++ word i.name :: symbol .colon :: i.type.lexemes
    ++ defaulted i.default ++ applied i.directives

/-- The lexemes of declared arguments. -/
def parameters (arguments : List InputValue) : List Lexeme :=
  enclosed .parenOpen .parenClose InputValue.lexemes arguments

/-- The lexemes of a field. -/
def Field.lexemes (f : Field) : List Lexeme :=
  described f.description ++ word f.name :: parameters f.arguments
    ++ symbol .colon :: f.type.lexemes ++ applied f.directives

/-- The lexemes of a value of an enum. -/
def EnumValue.lexemes (v : EnumValue) : List Lexeme :=
  described v.description ++ word v.name :: applied v.directives

/-- The lexemes of an operation. -/
def OperationType.lexemes (o : OperationType) : List Lexeme :=
  [word o.operation, symbol .colon, word o.type]

/-- The lexemes of operations. -/
def operations (os : List OperationType) : List Lexeme :=
  enclosed .curlyOpen .curlyClose OperationType.lexemes os

/-- What stands in front of the directives of a type: the interfaces of an object. -/
def Body.front (leading : Bool) : Body → List Lexeme
  | object interfaces _ =>
    if interfaces.isEmpty then []
    else word "implements" :: delimited .ampersand leading (interfaces.map word)
  | _ => []

/-- What follows the directives of a type. -/
def Body.back (leading : Bool) : Body → List Lexeme
  | scalar => []
  | object _ fields => enclosed .curlyOpen .curlyClose Field.lexemes fields
  | interface fields => enclosed .curlyOpen .curlyClose Field.lexemes fields
  | union types =>
    if types.isEmpty then [] else symbol .equals :: delimited .pipe leading (types.map word)
  | enum values => enclosed .curlyOpen .curlyClose EnumValue.lexemes values
  | inputObject fields => enclosed .curlyOpen .curlyClose InputValue.lexemes fields

/-- The lexemes of the name, the directives and the members of a type. -/
def typeLexemes (leading : Bool) (name : Text) (directives : List Directive) (body : Body) :
    List Lexeme :=
  word (Keyword.type body.kind).spelling :: word name :: body.front leading ++ applied directives
    ++ body.back leading

/-- The lexemes of a definition; `leading` says whether the list in it that is written with
delimiters has one in front. -/
def Definition.lexemes (leading : Bool) : Definition → List Lexeme
  | schema description directives os _ =>
    described description ++ word Keyword.schema.spelling :: applied directives ++ operations os
  | type description name directives body =>
    described description ++ typeLexemes leading name directives body
  | directive description name arguments locations _ =>
    described description ++ word Keyword.directive.spelling :: symbol .sign :: word name ::
      parameters arguments ++
        word "on" :: delimited .pipe leading (locations.map fun l => word l.val)
  | schemaExtension directives os _ =>
    word Parse.extendWord :: word Keyword.schema.spelling :: applied directives ++ operations os
  | typeExtension name directives body _ =>
    word Parse.extendWord :: typeLexemes leading name directives body

/-- The lexemes write a definition. -/
def Definition.Flattens (d : Definition) (ls : List Lexeme) : Prop :=
  ∃ leading, ls = d.lexemes leading

/-- The lexemes write a document: its definitions in order, between the tokens for the two ends. -/
def Document.Flattens (d : Document) (ls : List Lexeme) : Prop :=
  ∃ parts, List.Forall₂ Definition.Flattens d.definitions parts ∧
    ls = symbol .start :: parts.flatten ++ [symbol .finish]

end Grammar

end GraphSchema
