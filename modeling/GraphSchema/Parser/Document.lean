import GraphSchema.Parser.Definition

/-!
# Documents

The rules that read a whole text: a document of definitions, a single literal, or a single reference
to a type.

## Main definitions

* `Parse.document`, `Parse.lone`: the rules.
* `Parser.Document.parse`, `Parser.Document.parseValue`, `Parser.Document.parseType`.
-/

namespace GraphSchema

namespace Parse

/-- Definitions and extensions, at least one, up to the end of the text. -/
def document : Parse Node := do
  let start ← peek
  let _ ← expect .start
  let definitions ← someUntil (skip .finish) definition
  node start .document [.children .definitions definitions]

/-- A text that a single rule reads from its start to its end. -/
def lone {α : Type} (rule : Parse α) : Parse α := do
  let _ ← expect .start
  let a ← rule
  let _ ← expect .finish
  return a

end Parse

namespace Parser.Document

/-- Reads a document of definitions. -/
def parse (d : Document) : Except SyntaxError Node := Parse.document.run d

/-- Reads a single literal. -/
def parseValue (d : Document) : Except SyntaxError Node := (Parse.lone Parse.value).run d

/-- Reads a single reference to a type. -/
def parseType (d : Document) : Except SyntaxError Node := (Parse.lone Parse.typeReference).run d

end Parser.Document

end GraphSchema
