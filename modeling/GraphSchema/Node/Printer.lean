import GraphSchema.Node.Basic
import GraphSchema.Text.Case

/-!
# Printed nodes

Nodes and data on one line, for messages. A node is printed with its kind, its attributes and its
offsets; some literals also have a short form, in which they are printed where they are the value of
an attribute.

## Main definitions

* `Node.describe`, `Data.quoted`: the full forms.
* `Node.written`, `Data.display`: the forms in messages, short for literals and texts.
-/

namespace GraphSchema

/-- Offsets in parentheses. -/
def Span.describe (s : Span) : Text :=
  "(" ++ Text.ofInt s.start ++ ", " ++ Text.ofInt s.stop ++ ")"

namespace Printer

/-- Things in brackets. -/
def bracketed (items : List Text) : Text := "[" ++ Text.intercalate ", " items ++ "]"

/-- Things in parentheses, with a comma after a single one. -/
def parenthesized : List Text → Text
  | [item] => "(" ++ item ++ ",)"
  | items => "(" ++ Text.intercalate ", " items ++ ")"

/-- Things in braces. -/
def braced (items : List Text) : Text := "\x7b" ++ Text.intercalate ", " items ++ "\x7d"

/-- What is shown of an attribute; nothing is shown of one that is not there. -/
def shownAt (shown : List (Role × Text)) (r : Role) : Text :=
  (shown.lookup r).getD Atom.null.display

/-- A node with its kind, its offsets and what is shown of its attributes. -/
def fullForm (k : Kind) (i : Metadata) (shown : List (Role × Text)) : Text :=
  let span : Text := (i.span.map Span.describe).getD Atom.null.display
  let attributes : List Text := shown.map fun (r, t) => r.label ++ "=" ++ t
  "<" ++ k.label ++ " " ++ Text.intercalate ", " (attributes ++ ["loc=" ++ span]) ++ ">"

/-- The short form of a literal from what is shown of its attributes: numbers and enum values stand
as they were written, strings are put in quotation marks without escapes, three of them for a
block. -/
def shortForm? (k : Kind) (block : Bool) (shown : List (Role × Text)) : Option Text :=
  match k with
  | .intValue | .floatValue | .enumValue => some (shownAt shown .value)
  | .stringValue =>
    let mark : Text := if block then "\"\"\"" else "\""
    some (mark ++ shownAt shown .value ++ mark)
  | .booleanValue => some (shownAt shown .value).small
  | .nullValue => some "null"
  | _ => none

end Printer

mutual

/-- A node with its kind, its attributes and its offsets. -/
def Node.describe : Node → Text
  | .mk k i slots => Printer.fullForm k i (shownSlots k slots)

/-- A node as the value of an attribute. -/
def Node.written : Node → Text
  | .mk k i slots =>
    let shown := shownSlots k slots
    let block := slots.any fun s => s.role = .block && s.content.truth
    (Printer.shortForm? k block shown).getD (Printer.fullForm k i shown)

/-- What is shown of an attribute; `k` is the kind of the node. -/
def Slot.shown (k : Kind) : Slot → Role × Text
  | .mk r (.list items) =>
    (r, if k.shape? r = some .children then Printer.parenthesized (quotedItems items)
      else Printer.bracketed (quotedItems items))
  | .mk r d => (r, d.display)

/-- What is shown of the attributes of a node. -/
def shownSlots (k : Kind) : List Slot → List (Role × Text)
  | [] => []
  | s :: rest => s.shown k :: shownSlots k rest

/-- The form in which a datum is written into a message: a text stands as it is. -/
def Data.display : Data → Text
  | .atom a => a.display
  | .list items => Printer.bracketed (quotedItems items)
  | .record fields => Printer.braced (quotedFields fields)
  | .node n => n.written

/-- The form that shows what a datum is: texts are quoted. -/
def Data.quoted : Data → Text
  | .atom a => a.quoted
  | .list items => Printer.bracketed (quotedItems items)
  | .record fields => Printer.braced (quotedFields fields)
  | .node n => n.describe

/-- The full forms of the items of a list. -/
def quotedItems : List Data → List Text
  | [] => []
  | d :: rest => d.quoted :: quotedItems rest

/-- The full forms of the fields of a record. -/
def quotedFields : List (Text × Data) → List Text
  | [] => []
  | (k, d) :: rest => (k.quoted ++ ": " ++ d.quoted) :: quotedFields rest

end

end GraphSchema
