import GraphSchema.Atom
import GraphSchema.Failure
import GraphSchema.Node.Kind
import GraphSchema.Table

/-!
# Nodes

A node is immutable: a kind, metadata on where it comes from, and one slot for each attribute. What
a slot holds is a datum: an atom, a node, or a list or record of data. A node that was read from a
document holds what its kind asks for; one that was put together by hand may hold anything.

## Main definitions

* `Span`, `SourceLocation`, `Metadata`: where a node comes from and what is known about it.
* `Node`, `Slot`, `Data`: nodes, their attributes, and what these hold.
* `Node.content`, `Node.get`: attributes by role.
* `Node.child?`, `Node.childrenAt`: the nodes that attributes hold.
* `Node.size`: how many nodes a node is made of.
-/

namespace GraphSchema

/-- Offsets from `start` up to `stop`. -/
structure Span where
  start : Int
  stop : Int
deriving DecidableEq

/-- Line and column, counted from one, in a named document. -/
structure SourceLocation where
  line : Int
  column : Int
  source : Option Text
deriving DecidableEq

namespace SourceLocation

/-- The written form of a location. -/
def describe (l : SourceLocation) : Text :=
  "<SourceLocation " ++ l.source.getD Atom.null.display ++ ":" ++ Text.ofInt l.line ++ ":"
    ++ Text.ofInt l.column ++ ">"

end SourceLocation

/-- The document a node was read from, its place there, the comments and the ignored text in front
of it, and further data by key. -/
structure Metadata where
  source : Atom
  span : Option Span
  location : Option SourceLocation
  comments : List Atom
  ignored : Atom
  data : Table Text Atom
deriving DecidableEq

namespace Metadata

/-- Nothing is known. -/
def none : Metadata := ⟨.null, .none, .none, [], .text [], []⟩

instance : Inhabited Metadata := ⟨none⟩

end Metadata

mutual

/-- A node of a schema document. -/
inductive Node where
  | mk (kind : Kind) (info : Metadata) (slots : List Slot)

/-- An attribute with what it holds. -/
inductive Slot where
  | mk (role : Role) (content : Data)

/-- What an attribute holds. -/
inductive Data where
  | atom (a : Atom)
  | list (items : List Data)
  | record (fields : List (Text × Data))
  | node (n : Node)

end

namespace Data

instance : Inhabited Data := ⟨atom .null⟩

instance : Coe Text Data := ⟨fun t => atom (.text t)⟩

/-- Nothing. -/
@[match_pattern]
abbrev null : Data := atom .null

/-- A truth value. -/
@[match_pattern]
abbrev bool (b : Bool) : Data := atom (.bool b)

/-- An integer. -/
@[match_pattern]
abbrev int (n : Int) : Data := atom (.int n)

/-- A floating-point number. -/
@[match_pattern]
abbrev float (x : Binary64) : Data := atom (.float x)

/-- A text. -/
@[match_pattern]
abbrev text (t : Text) : Data := atom (.text t)

/-- Nodes in a list. -/
def nodeList (ns : List Node) : Data := list (ns.map node)

/-- The atom, if the datum is one. -/
def atom? : Data → Option Atom
  | atom a => some a
  | _ => none

/-- The text, if the datum is one. -/
def text? : Data → Option Text
  | text t => some t
  | _ => none

/-- The node, if the datum is one. -/
def node? : Data → Option Node
  | node n => some n
  | _ => none

/-- Whether nothing is there. -/
def isNull : Data → Bool
  | null => true
  | _ => false

/-- The items of a list. -/
def items : Data → List Data
  | list ds => ds
  | _ => []

/-- The nodes that an attribute holds: a single one, or those in a list. -/
def nodes : Data → List Node
  | node n => [n]
  | d => d.items.filterMap node?

/-- Whether a datum counts as true: empty lists and records do not. -/
def truth : Data → Bool
  | atom a => a.truth
  | list ds => !ds.isEmpty
  | record fields => !fields.isEmpty
  | node _ => true

/-- What a datum is told apart by as a key; only atoms can be keys. -/
def key : Data → Except Failure Atom
  | atom a => .ok a.key
  | _ => .error .unfit

end Data

namespace Slot

/-- The attribute that a slot belongs to. -/
def role : Slot → Role
  | mk r _ => r

/-- What a slot holds. -/
def content : Slot → Data
  | mk _ d => d

/-- The slot of an atom. -/
def datum (r : Role) (a : Atom) : Slot := mk r (.atom a)

/-- The slot of a single child. -/
def child (r : Role) (n : Node) : Slot := mk r (.node n)

/-- The slot of children. -/
def children (r : Role) (ns : List Node) : Slot := mk r (.nodeList ns)

end Slot

namespace Node

/-- The kind of a node. -/
def kind : Node → Kind
  | mk k _ _ => k

/-- The metadata of a node. -/
def info : Node → Metadata
  | mk _ i _ => i

/-- The slots of a node, in the order of its attributes. -/
def slots : Node → List Slot
  | mk _ _ s => s

instance : Inhabited Node := ⟨mk (.bare .node) .none []⟩

/-- The node with other slots. -/
def withSlots (n : Node) (slots : List Slot) : Node := mk n.kind n.info slots

end Node

mutual

/-- How many nodes a node is made of, descriptions included. -/
def Node.size : Node → Nat
  | .mk _ _ slots => 1 + slotsSize slots

/-- How many nodes a slot holds, with all nodes below. -/
def Slot.size : Slot → Nat
  | .mk _ d => d.size

/-- How many nodes the slots hold, with all nodes below. -/
def slotsSize : List Slot → Nat
  | [] => 0
  | s :: rest => s.size + slotsSize rest

/-- How many nodes there are in a datum, with all nodes below. -/
def Data.size : Data → Nat
  | .atom _ => 0
  | .list items => itemsSize items
  | .record fields => fieldsSize fields
  | .node n => n.size

/-- How many nodes there are in the items of a list, with all nodes below. -/
def itemsSize : List Data → Nat
  | [] => 0
  | d :: rest => d.size + itemsSize rest

/-- How many nodes there are in the fields of a record, with all nodes below. -/
def fieldsSize : List (Text × Data) → Nat
  | [] => 0
  | (_, d) :: rest => d.size + fieldsSize rest

end

theorem Data.size_le_of_mem {d : Data} {ds : List Data} (h : d ∈ ds) : d.size ≤ itemsSize ds := by
  induction ds with
  | nil => cases h
  | cons e rest ih =>
    rcases List.mem_cons.1 h with rfl | h
    · simp only [itemsSize]; omega
    · have := ih h
      simp only [itemsSize]; omega

theorem Data.size_le_of_mem_items {d e : Data} (h : d ∈ e.items) : d.size ≤ e.size := by
  cases e with
  | list ds => exact size_le_of_mem h
  | _ => cases h

theorem Data.size_le_of_mem_nodes {n : Node} {d : Data} (h : n ∈ d.nodes) : n.size ≤ d.size := by
  cases d with
  | node m =>
    cases List.mem_singleton.1 h
    exact Nat.le_refl _
  | list ds =>
    obtain ⟨e, he, hn⟩ := List.mem_filterMap.1 h
    cases e with
    | node m =>
      cases hn
      exact size_le_of_mem he
    | _ => cases hn
  | _ => cases h

theorem Slot.size_le_of_mem {s : Slot} {slots : List Slot} (h : s ∈ slots) :
    s.size ≤ slotsSize slots := by
  induction slots with
  | nil => cases h
  | cons t rest ih =>
    rcases List.mem_cons.1 h with rfl | h
    · simp only [slotsSize]; omega
    · have := ih h
      simp only [slotsSize]; omega

namespace Node

/-- The slot of an attribute. -/
def slot? (n : Node) (r : Role) : Option Slot := n.slots.find? fun s => s.role = r

/-- What an attribute holds, if the node has the attribute. -/
def content? (n : Node) (r : Role) : Option Data := (n.slot? r).map Slot.content

/-- What an attribute holds; nothing if the node does not have the attribute. -/
def content (n : Node) (r : Role) : Data := (n.content? r).getD .null

/-- What every node of some kinds answers for an attribute that it does not hold: definitions of no
particular kind have an empty name, and directives can be asked for wherever they can be applied. -/
def fallback? (n : Node) (r : Role) : Option Data :=
  if r = .name ∧ n.kind = .bare .typeDefinition then some (.text [])
  else if r = .directives ∧ n.kind.takesDirectives then some (.list [])
  else none

/-- What an attribute holds; asking for an attribute that the node does not have fails. -/
def get (n : Node) (r : Role) : Except Failure Data :=
  match n.content? r <|> n.fallback? r with
  | some d => .ok d
  | none => .error .noAttribute

/-- The name of a node as messages show it; nothing if the node has none. -/
def name (n : Node) : Data := (n.get .name).toOption.getD .null

/-- What a node is told apart by as a key. -/
def key (n : Node) : Except Failure Atom := do (← n.get .name).key

/-- The nodes that an attribute holds. -/
def childrenAt (n : Node) (r : Role) : List Node := (n.content r).nodes

/-- The single node that an attribute holds. -/
def child? (n : Node) (r : Role) : Option Node := (n.content r).node?

theorem size_pos (n : Node) : 0 < n.size := by
  cases n
  simp only [size]
  omega

theorem size_content_lt (n : Node) (r : Role) : (n.content r).size < n.size := by
  unfold content content? slot?
  cases h : n.slots.find? fun s => s.role = r with
  | none => exact size_pos n
  | some s =>
    have hs := Slot.size_le_of_mem (List.mem_of_find?_eq_some h)
    cases n
    cases s
    simp only [slots, Slot.size] at hs
    simp only [Option.map_some, Option.getD_some, Slot.content, size]
    omega

theorem size_lt_of_mem_childrenAt {n c : Node} {r : Role} (h : c ∈ n.childrenAt r) :
    c.size < n.size :=
  Nat.lt_of_le_of_lt (Data.size_le_of_mem_nodes h) (n.size_content_lt r)

theorem size_lt_of_child? {n c : Node} {r : Role} (h : n.child? r = some c) : c.size < n.size := by
  have hc := n.size_content_lt r
  unfold child? at h
  cases hd : n.content r with
  | node m =>
    rw [hd] at h hc
    cases h
    exact hc
  | _ => rw [hd] at h; cases h

theorem size_lt_of_get {n : Node} {d : Data} {r : Role} (h : n.get r = .ok d) :
    d.size < n.size := by
  unfold get at h
  have hc := n.size_content_lt r
  unfold content at hc
  cases hn : n.content? r with
  | some e =>
    rw [hn] at h hc
    cases h
    exact hc
  | none =>
    rw [hn] at h
    unfold fallback? at h
    split at h
    · rename_i e he
      have : e.size = 0 := by
        revert he
        rw [Option.orElse_eq_orElse, Option.orElse_eq_or]
        split
        · rintro ⟨⟩; simp [Data.size]
        · split
          · rintro ⟨⟩; simp [Data.size, itemsSize]
          · rintro ⟨⟩
      cases h
      rw [this]
      exact n.size_pos
    · cases h

end Node

namespace Data

/-- What an attribute of a node holds; what is no node has no attributes. -/
def get (d : Data) (r : Role) : Except Failure Data :=
  match d with
  | node n => n.get r
  | _ => .error .noAttribute

theorem size_lt_of_get {d e : Data} {r : Role} (h : d.get r = .ok e) : e.size < d.size := by
  cases d with
  | node n => exact n.size_lt_of_get h
  | _ => cases h

/-- Whether a datum is a node of a kind. -/
def isOf (d : Data) (k : Kind) : Bool := d.node?.any fun n => n.kind = k

/-- Whether a datum is a node of one of some kinds. -/
def isOneOf (d : Data) (ks : List Kind) : Bool := ks.any d.isOf

/-- The name of the kind of a datum in messages. -/
def typeName : Data → Text
  | atom a => a.typeName
  | list _ => "list"
  | record _ => "dict"
  | node n => n.kind.label

end Data

/-- What is left of a reference to a type without its list and non-null wrappers. -/
def Node.innermost (n : Node) : Data :=
  if n.kind = .listType ∨ n.kind = .nonNullType then
    match _h : n.content .type with
    | .node inner => inner.innermost
    | d => d
  else .node n
termination_by n.size
decreasing_by
  have := n.size_content_lt .type
  rw [_h] at this
  exact this

/-- What is left of a reference to a type without its list and non-null wrappers. -/
def Data.innermost : Data → Data
  | .node n => n.innermost
  | d => d

end GraphSchema
