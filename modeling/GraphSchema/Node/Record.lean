import GraphSchema.Node.Basic

/-!
# Records of nodes

A node as plain data: a record of its attributes and of what is known about it, with the nodes below
it as records in turn.

## Main definitions

* `Node.toRecord`: kind, attributes and offsets of a node.
* `Node.fullRecord`: the same with all metadata.
* `Node.brief`: what tells a node apart, without the nodes below it.
-/

namespace GraphSchema

/-- Offsets as data. -/
def Span.toData (s : Span) : Data := .list [.int s.start, .int s.stop]

namespace SourceLocation

/-- A location as data. -/
def toData (l : SourceLocation) : Data :=
  .list [.int l.line, .int l.column, (l.source.map Data.text).getD .null]

/-- Line and column by name. -/
def toRecord (l : SourceLocation) : Data :=
  .record [("line", .int l.line), ("column", .int l.column)]

end SourceLocation

/-- A field of a record. -/
def Data.field (key : Text) (d : Data) : Text × Data := (key, d)

/-- Something that may be absent, as data. -/
def Data.ofOption {α : Type} (f : α → Data) : Option α → Data
  | some a => f a
  | none => .null

/-- How a node becomes a record, when what its attributes hold has become data without nodes. -/
abbrev Framing := Kind → Metadata → List (Text × Data) → Data

mutual

/-- The record of a node. -/
def Node.framed (frame : Framing) : Node → Data
  | .mk k i slots => frame k i (framedSlots frame slots)

/-- What an attribute holds, under the name of the attribute. -/
def Slot.framed (frame : Framing) : Slot → Text × Data
  | .mk r d => (r.label, d.framed frame)

/-- What attributes hold, under their names. -/
def framedSlots (frame : Framing) : List Slot → List (Text × Data)
  | [] => []
  | s :: rest => s.framed frame :: framedSlots frame rest

/-- A datum with the records of the nodes in it. -/
def Data.framed (frame : Framing) : Data → Data
  | .atom a => .atom a
  | .list items => .list (framedItems frame items)
  | .record fields => .record fields
  | .node n => n.framed frame

/-- Data with the records of the nodes in them. -/
def framedItems (frame : Framing) : List Data → List Data
  | [] => []
  | d :: rest => d.framed frame :: framedItems frame rest

end

namespace Node

/-- The offsets of a node, under their name in records. -/
def spanEntry (i : Metadata) : Text × Data := ("loc", .ofOption Span.toData i.span)

/-- The name of a kind, under its name in records of what was read. -/
def kindEntry (k : Kind) : Text × Data := ("__kind__", .text k.label)

/-- The record of a node: its attributes, its offsets and the name of its kind. -/
def toRecord (n : Node) : Data :=
  n.framed fun k i fields => .record (fields ++ [spanEntry i, kindEntry k])

/-- The name of a kind, under its name in records with metadata. -/
def classEntry (k : Kind) : Text × Data := ("node", .text k.label)

/-- The record of a node with all its metadata but the document. -/
def fullRecord (n : Node) : Data :=
  n.framed fun k i fields => .record
    ([classEntry k, spanEntry i, ("at", .ofOption SourceLocation.toData i.location),
      ("comments", .list (i.comments.map Data.atom)), ("ignored", .atom i.ignored),
      ("data", .record (i.data.map fun entry => (entry.1, .atom entry.2)))] ++ fields)

/-- The texts and truth values by which a node can be told apart, under the names of their
attributes. -/
def words (n : Node) : List (Text × Data) :=
  Kind.identifying.filterMap fun r =>
    match n.content r with
    | .text t => some (r.label, .text t)
    | .bool b => some (r.label, .bool b)
    | _ => none

/-- What tells a node apart: its kind, its offsets and its words. -/
def brief (n : Node) : Data := .record (classEntry n.kind :: spanEntry n.info :: n.words)

end Node

/-- What tells a node apart; nothing for what is no node. -/
def Data.brief : Data → Data
  | .node n => n.brief
  | _ => .null

end GraphSchema
