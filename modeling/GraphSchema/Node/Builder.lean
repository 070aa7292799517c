import GraphSchema.Node.Children

/-!
# Builders

A builder collects attributes and metadata for a node of one kind. Attributes may be given more than
once; the last one counts. What must be given is checked when the node is built.

## Main definitions

* `Node.Assignment`: an attribute or a part of the metadata with its value.
* `Node.Builder`: a builder, with `set`, `add`, `putData` and `build`.
* `Node.toBuilder`, `Node.transform`: builders that start from a node.
* `Node.make`: a node from its attributes.
-/

namespace GraphSchema

/-- The data in a sequence that is given for children: the items of a list, the code points of a
text or the keys of a record. Whatever does not count as true is an empty sequence. -/
def Data.sequence? : Data → Option (List Data)
  | .list ds => some ds
  | .text t => some (t.map fun c => .text [c])
  | .record fields => some (fields.map fun entry => .text entry.1)
  | d => if d.truth then none else some []

namespace Node

/-- An attribute or a part of the metadata, with its value; `other` is a name that stands for
neither. -/
inductive Assignment where
  | source (a : Atom)
  | span (span : Option Span)
  | location (location : Option SourceLocation)
  | comments (comments : List Atom)
  | ignored (a : Atom)
  | data (entries : Table Text Atom)
  | slot (s : Slot)
  | other (name : Text)

/-- The names of the parts of the metadata. -/
def metadataNames : List Text :=
  ["source", "loc", "source_location", "comments", "ignored_chars", "additional_data"]

/-- The name of the attribute, if nodes of the kind do not have it. -/
def Assignment.unknown? (k : Kind) : Assignment → Option Text
  | slot s => if k.has s.role then none else some s.role.label
  | other name => some name
  | _ => none

/-- What is known about a node that is to be built. -/
structure Builder where
  kind : Kind
  info : Metadata
  slots : List Slot
  added : Table Text Atom

namespace Builder

/-- A builder that knows nothing but the kind. -/
def ofKind (kind : Kind) : Builder := ⟨kind, .none, [], []⟩

/-- A builder for nodes of a kind that starts from a node, which must be of that kind. -/
def ofNode (kind : Kind) (n : Node) : Except Fault Builder :=
  if n.kind.isA kind then .ok ⟨kind, n.info, n.slots, []⟩
  else .error (.otherKind kind n.kind)

/-- Takes over one value. -/
def assign (b : Builder) : Assignment → Builder
  | .source a => { b with info.source := a }
  | .span span => { b with info.span := span }
  | .location location => { b with info.location := location }
  | .comments comments => { b with info.comments := comments }
  | .ignored a => { b with info.ignored := a }
  | .data entries => { b with info.data := .ofLast entries }
  | .slot s => { b with slots := putSlot s b.slots }
  | .other _ => b

/-- Takes over values, all of them or, if one has an unknown name, none. -/
def set (b : Builder) (values : List Assignment) : Except Fault Builder :=
  match values.findSome? (Assignment.unknown? b.kind) with
  | some name => .error (.unknownAttribute name b.kind)
  | none => .ok (values.foldl assign b)

/-- Appends data to the sequence that an attribute holds. -/
def append (b : Builder) (r : Role) (ds : List Data) : Except Fault Builder :=
  let before := ((b.slots.find? fun s => s.role = r).map Slot.content).getD .null
  match before.sequence? with
  | none => .error .malformed
  | some all => .ok { b with slots := putSlot (.mk r (.list (all ++ ds))) b.slots }

/-- Appends data to the sequence that the attribute with a given name holds. Of the parts of the
metadata only the comments are a sequence, of atoms. -/
def add (b : Builder) (name : Text) (ds : List Data) : Except Fault Builder :=
  match (Role.ofLabel? name).filter b.kind.has with
  | some r => b.append r ds
  | none =>
    if name ∉ metadataNames then .error (.unknownAttribute name b.kind)
    else if name = "comments" then
      match ds.mapM Data.atom? with
      | some comments => .ok { b with info.comments := b.info.comments ++ comments }
      | none => .error .malformed
    else if ds.isEmpty then .ok b
    else .error .malformed

/-- Puts further data under a key. -/
def putData (b : Builder) (key : Text) (value : Atom) : Builder :=
  { b with added := b.added.put key value }

/-- What an attribute of a given shape holds, from what was given for it. -/
def settle (shape : Shape) (given : Option Data) : Except Fault Data :=
  match shape, given with
  | .children, given =>
    match (given.getD .null).sequence? with
    | some ds => .ok (.list ds)
    | none => .error .malformed
  | _, some d => .ok d
  | .datum (some default), none => .ok (.bool default)
  | shape, none => if shape.isRequired then .error .malformed else .ok .null

/-- The node that a builder describes. -/
def build (b : Builder) : Except Fault Node := do
  if b.slots.any fun s => !b.kind.has s.role then throw .malformed
  let slots ← b.kind.layout.mapM fun entry => do
    let given := (b.slots.find? fun s => s.role = entry.1).map Slot.content
    return Slot.mk entry.1 (← settle entry.2 given)
  return Node.mk b.kind { b.info with data := b.info.data.putAll b.added } slots

end Builder

/-- A builder that knows all of a node. -/
def toBuilder (n : Node) : Builder := ⟨n.kind, n.info, n.slots, []⟩

/-- A copy of a node, changed by way of a builder. -/
def transform (n : Node) (change : Builder → Except Fault Builder) : Except Fault Node := do
  (← change n.toBuilder).build

/-- A node of a kind with given attributes; an unknown name makes it malformed. -/
def make (k : Kind) (values : List Assignment) : Except Fault Node :=
  match (Builder.ofKind k).set values with
  | .ok b => b.build
  | .error _ => .error .malformed

/-- The names that every node answers to, apart from its attributes and metadata. -/
def commonNames : List Text :=
  ["kind", "copy", "deepcopy", "children", "named_children", "with_new_children", "is_equal_to",
   "accept", "builder", "to_builder", "transform", "to_dict", "_fields", "_children", "_identity",
   "_props", "_state", "_replace"]

/-- The names between underscores that every node answers to. -/
def underscoredNames : List Text :=
  ["__class__", "__copy__", "__deepcopy__", "__delattr__", "__dir__", "__doc__", "__eq__",
   "__format__", "__ge__", "__getattribute__", "__getstate__", "__gt__", "__hash__", "__init__",
   "__init_subclass__", "__le__", "__lt__", "__module__", "__ne__", "__new__", "__reduce__",
   "__reduce_ex__", "__repr__", "__setattr__", "__sizeof__", "__slots__", "__str__",
   "__subclasshook__"]

/-- The names that nodes answer to if directives can be applied to them. -/
def directiveNames : List Text := ["directives", "has_directive", "get_directives"]

/-- Whether a node answers to a name. -/
def answersTo (n : Node) (name : Text) : Bool :=
  name ∈ metadataNames || name ∈ commonNames || name ∈ underscoredNames
    || (Role.ofLabel? name).any n.kind.has
    || (n.kind.takesDirectives && name ∈ directiveNames)
    || (n.kind = .bare .typeDefinition && name = Role.name.label)

/-- Why an attribute of a node cannot be set: nodes are immutable. -/
def setFault (n : Node) (name : Text) : Fault :=
  if n.answersTo name then .fixedAttribute name n.kind else .noAttribute

/-- Why an attribute of a node cannot be deleted: nodes are immutable. -/
def deleteFault (n : Node) (name : Text) : Fault := .lastingAttribute name n.kind

end Node

end GraphSchema
