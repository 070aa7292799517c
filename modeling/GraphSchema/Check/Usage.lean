import GraphSchema.Check.Report
import GraphSchema.Node.Equality
import GraphSchema.Registry
import GraphSchema.Wiring

/-!
# Usages of arguments

The value that a directive is given for an argument is compared with the type that the argument was
declared with. Types that are not known, and types whose values cannot be given as arguments, are
passed over. Single values stand for lists of one item. A coercer, if the argument has one, looks
at values that fit their types.

## Main definitions

* `Usage`: an argument of a directive that is applied to an element of a schema.
* `Usage.matchesType`: compares a value with a type.
* `Usage.checkArgument`: compares the value of the argument with a type, and calls the coercer.
-/

namespace GraphSchema

/-- An argument of a directive that is applied to an element, in a registry and with a wiring. -/
structure Usage where
  registry : Registry
  wiring : Wiring
  directive : Data
  element : Node
  elementName : Data
  argument : Node

namespace Usage

/-- The value does not fit. -/
def mismatch (u : Usage) (kind : Problem.Mismatch) (detail : Text) (value : Data) : Check :=
  Check.found (.badValue kind u.element u.elementName u.directive u.argument.name detail value)

/-- The names that occur more than once, in the order of their first occurrences. -/
def repeatedNames (names : List Atom) : List Atom :=
  names.eraseDups.filter fun a => 1 < names.count a

/-- Names one after the other; only texts can be written so. -/
def joined (separator : Text) (names : List Data) : Except Failure Text := do
  let texts ← names.mapM fun d =>
    match d with
    | .text t => .ok t
    | _ => .error .unfit
  return Text.intercalate separator texts

/-- Names in quotation marks in brackets. -/
def bracketed (names : List Data) : Except Failure Text :=
  return "['" ++ (← joined "', '" names) ++ "']"

/-- The names of things. -/
def names (ds : List Data) : Except Failure (List Data) := ds.mapM fun d => d.get .name

/-- What a literal holds, or else the literal itself. -/
def shownValue (value : Data) : Data := ((value.node?.bind fun n => n.content? .value)).getD value

/-- A literal that stands for a scalar. -/
def checkScalar (u : Usage) (value : Data) (definition : Node) : Check :=
  if value.isOneOf [.listValue, .enumValue, .objectValue] then
    u.mismatch .scalar ("Argument value is of type '" ++ value.typeName
      ++ "', expected a scalar.") value
  else
    match definition.name.text?.bind u.wiring.scalar? with
    | none => Check.clean
    | some scalar => do
      let called : Report := ⟨[], scalar.calls value⟩
      match scalar.parseLiteral value with
      | .ok _ => return called
      | .error f =>
        if f.category = .scalarParsing then
          return called ++ (← u.mismatch .scalar ("Argument value '" ++ (shownValue value).display
            ++ "' is not a valid value of scalar '" ++ definition.name.display ++ "': " ++ f.text)
            value)
        else throw f

/-- A literal that stands for a value of an enum. -/
def checkEnum (u : Usage) (value : Data) (definition : Node) : Check :=
  match value.node?.filter fun n => n.kind = .enumValue with
  | none =>
    u.mismatch .enum ("Argument value is of type '" ++ value.typeName
      ++ "', expected an enum value.") value
  | some n => do
    let allowed ← names (definition.content .values).items
    let name := n.content .value
    if allowed.any name.same then Check.clean
    else
      u.mismatch .enum ("Argument value '" ++ name.display
        ++ "' doesn't match any of the allowed enum values " ++ (← bracketed allowed)) value

/-- The members of a list by their names, in order. -/
def keyed (ds : List Data) : Except Failure (List (Atom × Data)) :=
  ds.mapM fun d => return (← (← d.get .name).key, d)

/-- The fields of an object by themselves: each name once, and no name that is not declared. -/
def checkKeys (u : Usage) (value : Node) (definition : Node) (given : List (Atom × Data)) :
    Check := do
  let named (keep : Atom → Bool) : Except Failure (List Data) :=
    names ((given.filter fun entry => keep entry.1).map Prod.snd)
  let twice := repeatedNames (given.map Prod.fst)
  if twice ≠ [] then
    let shown ← names (twice.filterMap (Table.get? given))
    return ← u.mismatch .duplicateKeys ("Argument value object keys [" ++ (← joined "," shown)
      ++ "] appear more than once.") (.node value)
  let declared ← keyed (definition.content .fields).items
  let unknown ← named fun a => !declared.any fun entry => entry.1 = a
  if unknown.isEmpty then Check.clean
  else
    u.mismatch .unknownFields ("Fields " ++ (← bracketed unknown) ++ " not present in type '"
      ++ definition.name.display ++ "'.") (.node value)

/-- Whether a value must be given for a declared argument or field: its type is non-null, and there
is no default. -/
def isRequired (declared : Data) : Except Failure Bool := do
  if (← declared.get .type).isOf .nonNullType then return (← declared.get .defaultValue).isNull
  else return false

/-- A declared field that was not given. -/
def checkMissing (u : Usage) (value : Node) (declared : Data) : Check := do
  if ← isRequired declared then
    u.mismatch .missingField
      ("Missing required field '" ++ (← declared.get .name).display ++ "'.") (.node value)
  else Check.clean

/-- What is no object stands for one. -/
def notObject (u : Usage) (value : Data) : Check :=
  u.mismatch .object ("Argument value is of type '" ++ value.typeName
    ++ "', expected an Object value.") value

/-- The failure of comparing a value with what is no reference to a type. -/
def unknownType (d : Data) : Failure := .badType ("Unknown type node " ++ d.quoted)

/-- An item of a list whose items are lists should be a list itself. -/
def checkItem (u : Usage) (item type : Data) : Check :=
  if type.isOf .listType ∧ !item.isOf .listValue then
    u.mismatch .list ("Argument value is '" ++ item.typeName ++ "', expected a list value.") item
  else Check.clean

/-- The definition of the type that a reference names, with its extensions. -/
def definition? (u : Usage) (reference : Node) : Except Failure (Option Node) := do
  u.registry.extendedType? (← reference.key)

/-- The field of an object with a given name. -/
def field? (value : Node) (name : Atom) : Option { f : Data // f.size < value.size } :=
  match h : (value.content .fields).items.find? fun f =>
      (f.get .name >>= Data.key).toOption = some name with
  | some f => some ⟨f, Nat.lt_of_le_of_lt (Data.size_le_of_mem_items (List.mem_of_find?_eq_some h))
      (value.size_content_lt .fields)⟩
  | none => none

/-- Compares a value with a type. -/
def matchesType (u : Usage) (value type : Data) : Check :=
  match type with
  | .node reference =>
    match reference.kind with
    | .nonNullType =>
      if value.isOf .nullValue then
        u.mismatch .null "Argument value is 'NullValue', expected a non-null value." value
      else u.matchesType value (reference.content .type)
    | .listType =>
      let inner := reference.content .type
      match value with
      | .node v =>
        if v.kind = .nullValue then Check.clean
        else if v.kind = .listValue then
          Check.each (v.content .values).items.attach fun ⟨item, _⟩ =>
            Check.both (u.checkItem item inner) (u.matchesType item inner)
        else u.matchesType (.node v) inner
      | d => u.matchesType d inner
    | .namedType =>
      if value.isOf .nullValue then Check.clean
      else do
        match ← u.definition? reference with
        | none => Check.clean
        | some definition =>
          match definition.kind with
          | .typeDefinition .scalar => u.checkScalar value definition
          | .typeDefinition .enum => u.checkEnum value definition
          | .typeDefinition .inputObject =>
            match value with
            | .node v =>
              if v.kind = .objectValue then do
                let report ← u.checkKeys v definition (← keyed (v.content .fields).items)
                if report.isClean then
                  Check.each (definition.content .fields).items fun declared => do
                    match field? v (← (← declared.get .name).key) with
                    | none => u.checkMissing v declared
                    | some ⟨f, _⟩ =>
                      match _h : f.get .value with
                      | .ok given => u.matchesType given (← declared.get .type)
                      | .error e => throw e
                else return report
              else u.notObject value
            | _ => u.notObject value
          | _ => Check.clean
    | _ => .error (unknownType type)
  | _ => .error (unknownType type)
termination_by (value.size, type.size)
decreasing_by
  · exact Prod.Lex.right _ (reference.size_content_lt .type)
  · exact Prod.Lex.left _ _
      (Nat.lt_of_le_of_lt (Data.size_le_of_mem_items (by assumption)) (v.size_content_lt .values))
  · exact Prod.Lex.right _ (reference.size_content_lt .type)
  · exact Prod.Lex.right _ (reference.size_content_lt .type)
  · exact Prod.Lex.left _ _ (Nat.lt_trans (Data.size_lt_of_get _h) (by assumption))

/-- Lets the coercer of the argument look at its value, if there is one. -/
def coerce (u : Usage) (value : Data) : Check :=
  let coercer := do u.wiring.coercer? (← u.directive.text?) (← u.argument.name.text?)
  match coercer with
  | none => Check.clean
  | some c => do
    let called : Report := ⟨[], [c.call value]⟩
    match c.run value with
    | .ok _ => return called
    | .error f =>
      if f.isRejection then
        return called ++ (← u.mismatch .coercion
          ("Argument value failed coercion: " ++ f.text) value)
      else throw f

/-- Compares the value of the argument with a type; if it fits, the coercer is called. -/
def checkArgument (u : Usage) (type : Data) : Check := do
  let value ← u.argument.get .value
  let report ← u.matchesType value type
  if report.isClean then return report ++ (← u.coerce value) else return report

end Usage

end GraphSchema
