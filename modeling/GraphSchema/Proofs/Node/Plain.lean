import GraphSchema.Node.Basic

/-!
# Nodes apart from their places

What a node is, without where it was read and what stood in front of it.

## Main definitions

* `Node.plain`, `Slot.plain`, `Data.plain`: without places, comments and ignored text, all the way
  down.
-/

namespace GraphSchema

/-- Without the document, the place, the comments and the ignored text. -/
def Metadata.plain (i : Metadata) : Metadata := { Metadata.none with data := i.data }

mutual

/-- A node apart from its place, and so on below. -/
def Node.plain : Node → Node
  | .mk k i slots => .mk k i.plain (plainSlots slots)

/-- A slot with nodes apart from their places. -/
def Slot.plain : Slot → Slot
  | .mk r d => .mk r d.plain

/-- Slots with nodes apart from their places. -/
def plainSlots : List Slot → List Slot
  | [] => []
  | s :: rest => s.plain :: plainSlots rest

/-- A datum with nodes apart from their places. -/
def Data.plain : Data → Data
  | .atom a => .atom a
  | .list ds => .list (plainItems ds)
  | .record fields => .record (plainFields fields)
  | .node n => .node n.plain

/-- Items with nodes apart from their places. -/
def plainItems : List Data → List Data
  | [] => []
  | d :: rest => d.plain :: plainItems rest

/-- Fields with nodes apart from their places. -/
def plainFields : List (Text × Data) → List (Text × Data)
  | [] => []
  | (key, d) :: rest => (key, d.plain) :: plainFields rest

end

@[simp] theorem plainSlots_eq_map (slots : List Slot) :
    plainSlots slots = slots.map Slot.plain := by
  induction slots with
  | nil => rfl
  | cons s rest ih => simp [plainSlots, ih]

@[simp] theorem plainItems_eq_map (ds : List Data) : plainItems ds = ds.map Data.plain := by
  induction ds with
  | nil => rfl
  | cons d rest ih => simp [plainItems, ih]

@[simp] theorem Data.plain_atom (a : Atom) : (Data.atom a).plain = .atom a := by simp [plain]

@[simp] theorem Data.plain_node (n : Node) : (Data.node n).plain = .node n.plain := by simp [plain]

@[simp] theorem Data.plain_list (ds : List Data) :
    (Data.list ds).plain = .list (ds.map plain) := by
  simp [plain]

@[simp] theorem Slot.plain_datum (r : Role) (a : Atom) : (datum r a).plain = datum r a := by
  simp [datum, plain]

@[simp] theorem Slot.plain_child (r : Role) (n : Node) : (child r n).plain = child r n.plain := by
  simp [child, plain]

@[simp] theorem Slot.plain_children (r : Role) (ns : List Node) :
    (children r ns).plain = children r (ns.map Node.plain) := by
  simp [children, plain, Data.nodeList]

@[simp] theorem Node.plain_mk (k : Kind) (i : Metadata) (slots : List Slot) :
    (mk k i slots).plain = mk k i.plain (slots.map Slot.plain) := by
  simp [plain]

/-! ## The nodes in a slot -/

theorem Data.nodes_nodeList (ns : List Node) : (nodeList ns).nodes = ns := by
  simp [nodeList, nodes, items, List.filterMap_map, Function.comp_def, node?]

@[simp] theorem Slot.nodes_content_children (r : Role) (ns : List Node) :
    (children r ns).content.nodes = ns :=
  Data.nodes_nodeList ns

theorem Slot.content_plain (s : Slot) : s.plain.content = s.content.plain := by
  cases s
  simp [plain, content]

theorem Data.nodes_plain (d : Data) : d.plain.nodes = d.nodes.map Node.plain := by
  cases d with
  | atom a => cases a <;> simp [nodes, items]
  | list ds =>
    have h : ∀ e : Data, e.plain.node? = e.node?.map Node.plain := by
      intro e
      cases e with
      | atom a => cases a <;> simp [node?]
      | list es => simp [node?]
      | record fields => simp [plain, node?]
      | node n => simp [node?]
    simp only [plain_list, nodes, items, List.filterMap_map, List.map_filterMap]
    rw [show node? ∘ plain = fun e => e.node?.map Node.plain from funext h]
  | record fields => simp [plain, nodes, items]
  | node n => simp [nodes]

end GraphSchema
