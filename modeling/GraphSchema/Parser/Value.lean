import GraphSchema.Parser.Basic

/-!
# Literals, arguments and directives

The rules for literals, and for the directives whose arguments they are.

## Main definitions

* `Parse.value`: a literal.
* `Parse.directives`: directives applied to an element.
-/

namespace GraphSchema.Parse

/-- A name. -/
def name : Parse Text := do return (← expect .name).value

/-- The slot of a name. -/
def nameSlot (name : Text) : Slot := .datum .name (.text name)

/-- The next token as a string, whatever it is. -/
def stringLiteral : Parse Node := do
  let token ← advance
  node token .stringValue
    [.datum .value (.text token.value), .datum .block (.bool (token.kind = .blockString))]

/-- What a name stands for where a literal is expected. -/
def wordLiteral (word : Text) : Kind × List Slot :=
  if word = "true" then (.booleanValue, [.datum .value (.bool true)])
  else if word = "false" then (.booleanValue, [.datum .value (.bool false)])
  else if word = "null" then (.nullValue, [])
  else (.enumValue, [.datum .value (.text word)])

/-- A list of literals, each read by `item`. -/
def listOf (item : Parse Node) : Parse Node := do
  let start ← peek
  let values ← any .bracketOpen item .bracketClose
  node start .listValue [.children .values values]

/-- A name, a colon and a literal, read by `item`. -/
def entryOf (kind : Kind) (item : Parse Node) : Parse Node := do
  let start ← peek
  let name ← name
  let _ ← expect .colon
  let value ← item
  node start kind [nameSlot name, .child .value value]

/-- An object of fields whose literals are read by `item`. -/
def objectOf (item : Parse Node) : Parse Node := do
  let start ← expect .curlyOpen
  let fields ← allUntil (skip .curlyClose) (entryOf .objectField item)
  node start .objectValue [.children .fields fields]

/-- A literal whose parts are read by `item`. -/
def valueOf (item : Parse Node) : Parse Node := do
  let token ← peek
  match token.kind with
  | .bracketOpen => listOf item
  | .curlyOpen => objectOf item
  | .integer => do
    let _ ← advance
    node token .intValue [.datum .value (.text token.value)]
  | .float => do
    let _ ← advance
    node token .floatValue [.datum .value (.text token.value)]
  | .string => stringLiteral
  | .blockString => stringLiteral
  | .name => do
    let _ ← advance
    let (kind, slots) := wordLiteral token.value
    node token kind slots
  | _ => unexpected token

/-- A literal that is nested less than `depth` deep. -/
def valueWithin : (depth : Nat) → Parse Node
  | 0 => failAtEnd
  | depth + 1 => valueOf (valueWithin depth)

/-- A literal. -/
def value : Parse Node := do valueWithin (← read).budget

/-- A list of literals. -/
def list : Parse Node := listOf value

/-- An object. -/
def object : Parse Node := objectOf value

/-- A field of an object. -/
def objectField : Parse Node := entryOf .objectField value

/-- An argument of a directive. -/
def argument : Parse Node := entryOf .argument value

/-- The arguments of a directive, if there are any. -/
def arguments : Parse (List Node) := optionalMany .parenOpen argument .parenClose

/-- A directive applied to an element. -/
def directive : Parse Node := do
  let start ← expect .sign
  let name ← name
  let arguments ← arguments
  node start .directive [nameSlot name, .children .arguments arguments]

/-- The directives applied to an element. -/
def directives : Parse (List Node) := allUntil (return !(← ahead .sign)) directive

end GraphSchema.Parse
