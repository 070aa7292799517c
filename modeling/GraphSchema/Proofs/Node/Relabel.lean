import GraphSchema.Node.Basic

/-!
# Nodes with other metadata

A node with its metadata, and that of all nodes below it, mapped by a function.

## Main definitions

* `Node.relabel`, `Slot.relabel`, `Data.relabel`: other metadata, all the way down.

## Main statements

* `Node.content_relabel`, `Node.childrenAt_relabel`: what attributes hold afterwards.
* `Node.get_relabel`, `Node.key_relabel`, `Node.name_relabel`: what nodes answer afterwards.
* `Node.relabel_relabel`: metadata that are mapped twice.
-/

namespace GraphSchema

mutual

/-- A node with other metadata, and so on below. -/
def Node.relabel (f : Metadata → Metadata) : Node → Node
  | .mk k i slots => .mk k (f i) (relabelSlots f slots)

/-- A slot with nodes with other metadata. -/
def Slot.relabel (f : Metadata → Metadata) : Slot → Slot
  | .mk r d => .mk r (d.relabel f)

/-- Slots with nodes with other metadata. -/
def relabelSlots (f : Metadata → Metadata) : List Slot → List Slot
  | [] => []
  | s :: rest => s.relabel f :: relabelSlots f rest

/-- A datum with nodes with other metadata. -/
def Data.relabel (f : Metadata → Metadata) : Data → Data
  | .atom a => .atom a
  | .list ds => .list (relabelItems f ds)
  | .record fields => .record (relabelFields f fields)
  | .node n => .node (n.relabel f)

/-- Items with nodes with other metadata. -/
def relabelItems (f : Metadata → Metadata) : List Data → List Data
  | [] => []
  | d :: rest => d.relabel f :: relabelItems f rest

/-- Fields with nodes with other metadata. -/
def relabelFields (f : Metadata → Metadata) : List (Text × Data) → List (Text × Data)
  | [] => []
  | (key, d) :: rest => (key, d.relabel f) :: relabelFields f rest

end

variable {f g : Metadata → Metadata}

theorem relabelSlots_eq_map (slots : List Slot) :
    relabelSlots f slots = slots.map (Slot.relabel f) := by
  induction slots with
  | nil => rfl
  | cons s rest ih => rw [relabelSlots, ih, List.map_cons]

theorem relabelItems_eq_map (ds : List Data) : relabelItems f ds = ds.map (Data.relabel f) := by
  induction ds with
  | nil => rfl
  | cons d rest ih => rw [relabelItems, ih, List.map_cons]

@[simp] theorem Data.relabel_atom (a : Atom) : (atom a).relabel f = atom a := by simp [relabel]

@[simp] theorem Data.relabel_node (n : Node) : (node n).relabel f = node (n.relabel f) := by
  simp [relabel]

@[simp] theorem Data.relabel_list (ds : List Data) :
    (list ds).relabel f = list (ds.map (relabel f)) := by
  rw [relabel, relabelItems_eq_map]

@[simp] theorem Data.relabel_nodeList (ns : List Node) :
    (nodeList ns).relabel f = nodeList (ns.map (Node.relabel f)) := by
  simp [nodeList]

@[simp] theorem Node.relabel_mk (k : Kind) (i : Metadata) (slots : List Slot) :
    (mk k i slots).relabel f = mk k (f i) (slots.map (Slot.relabel f)) := by
  rw [relabel, relabelSlots_eq_map]

@[simp] theorem Slot.relabel_datum (r : Role) (a : Atom) : (datum r a).relabel f = datum r a := by
  simp [datum, relabel, Data.relabel]

@[simp] theorem Slot.relabel_child (r : Role) (n : Node) :
    (child r n).relabel f = child r (n.relabel f) := by
  simp [child, relabel, Data.relabel]

@[simp] theorem Slot.relabel_children (r : Role) (ns : List Node) :
    (children r ns).relabel f = children r (ns.map (Node.relabel f)) := by
  simp [children, relabel, Data.nodeList, Data.relabel, relabelItems_eq_map]

/-! ## What attributes hold -/

theorem Data.node?_relabel (d : Data) : (d.relabel f).node? = d.node?.map (Node.relabel f) := by
  cases d with
  | record fields => simp [relabel, node?]
  | _ => simp [node?]

theorem Data.items_relabel (d : Data) : (d.relabel f).items = d.items.map (relabel f) := by
  cases d with
  | record fields => simp [relabel, items]
  | _ => simp [items]

theorem Data.nodes_relabel (d : Data) : (d.relabel f).nodes = d.nodes.map (Node.relabel f) := by
  cases d with
  | record fields => simp [relabel, nodes, items]
  | list ds =>
    simp only [relabel_list, nodes, items, List.filterMap_map, List.map_filterMap]
    rw [show node? ∘ relabel f = fun d => d.node?.map (Node.relabel f) from funext node?_relabel]
  | atom a => simp [nodes, items]
  | node n => simp [nodes]

theorem Slot.role_relabel (s : Slot) : (s.relabel f).role = s.role := by
  cases s
  simp [relabel, role]

theorem Slot.content_relabel (s : Slot) : (s.relabel f).content = s.content.relabel f := by
  cases s
  simp [relabel, content]

namespace Node

@[simp] theorem kind_relabel (n : Node) : (n.relabel f).kind = n.kind := by
  cases n
  simp [kind]

@[simp] theorem info_relabel (n : Node) : (n.relabel f).info = f n.info := by
  cases n
  simp [info]

theorem slots_relabel (n : Node) : (n.relabel f).slots = n.slots.map (Slot.relabel f) := by
  cases n
  simp [slots]

theorem content?_relabel (n : Node) (r : Role) :
    (n.relabel f).content? r = (n.content? r).map (Data.relabel f) := by
  rw [content?, content?, slot?, slot?, slots_relabel, List.find?_map, Option.map_map,
    Option.map_map]
  simp only [Function.comp_def, Slot.role_relabel, Slot.content_relabel]

theorem content_relabel (n : Node) (r : Role) :
    (n.relabel f).content r = (n.content r).relabel f := by
  rw [content, content, content?_relabel]
  cases n.content? r <;> simp

theorem childrenAt_relabel (n : Node) (r : Role) :
    (n.relabel f).childrenAt r = (n.childrenAt r).map (relabel f) := by
  rw [childrenAt, childrenAt, content_relabel, Data.nodes_relabel]

theorem child?_relabel (n : Node) (r : Role) :
    (n.relabel f).child? r = (n.child? r).map (relabel f) := by
  rw [child?, child?, content_relabel, Data.node?_relabel]

theorem map_role_relabel (n : Node) :
    (n.relabel f).slots.map Slot.role = n.slots.map Slot.role := by
  rw [slots_relabel, List.map_map]
  exact List.map_congr_left fun s _ => s.role_relabel

end Node

/-! ## What is asked for -/

theorem Node.fallback?_relabel (n : Node) (r : Role) :
    (n.relabel f).fallback? r = (n.fallback? r).map (Data.relabel f) := by
  rw [fallback?, fallback?, kind_relabel]
  split
  · simp
  · split <;> simp

theorem Node.get_relabel (n : Node) (r : Role) :
    (n.relabel f).get r = (n.get r).map (Data.relabel f) := by
  rw [get, get, content?_relabel, fallback?_relabel]
  cases n.content? r with
  | some d => rfl
  | none =>
    cases n.fallback? r with
    | some d => rfl
    | none => rfl

theorem Node.name_relabel (n : Node) : (n.relabel f).name = n.name.relabel f := by
  rw [name, name, get_relabel]
  cases n.get .name with
  | ok d => rfl
  | error e => exact (Data.relabel_atom _).symm

namespace Data

theorem get_relabel (d : Data) (r : Role) : (d.relabel f).get r = (d.get r).map (relabel f) := by
  cases d with
  | node n =>
    rw [relabel_node]
    exact n.get_relabel r
  | _ => rfl

theorem key_relabel (d : Data) : (d.relabel f).key = d.key := by
  cases d with
  | atom a => rw [relabel_atom]
  | _ => rfl

theorem text?_relabel (d : Data) : (d.relabel f).text? = d.text? := by
  cases d with
  | atom a => rw [relabel_atom]
  | _ => rfl

theorem isNull_relabel (d : Data) : (d.relabel f).isNull = d.isNull := by
  cases d with
  | atom a => rw [relabel_atom]
  | _ => rfl

theorem typeName_relabel (d : Data) : (d.relabel f).typeName = d.typeName := by
  cases d with
  | atom a => rw [relabel_atom]
  | node n => rw [relabel_node, typeName, typeName, Node.kind_relabel]
  | _ => rfl

theorem isOf_relabel (d : Data) (k : Kind) : (d.relabel f).isOf k = d.isOf k := by
  rw [isOf, isOf, node?_relabel]
  cases d.node? <;> simp

end Data

theorem Node.key_relabel (n : Node) : (n.relabel f).key = n.key := by
  rw [key, key, get_relabel]
  cases n.get .name with
  | ok d => exact d.key_relabel
  | error e => rfl

/-! ## Metadata that are mapped twice -/

mutual

theorem Node.relabel_relabel : ∀ n : Node, (n.relabel f).relabel g = n.relabel (g ∘ f)
  | .mk k i slots => by
    rw [Node.relabel, Node.relabel, Node.relabel, relabelSlots_relabelSlots slots]
    rfl

theorem Slot.relabel_relabel : ∀ s : Slot, (s.relabel f).relabel g = s.relabel (g ∘ f)
  | .mk r d => by rw [Slot.relabel, Slot.relabel, Slot.relabel, d.relabel_relabel]

theorem relabelSlots_relabelSlots : ∀ slots : List Slot,
    relabelSlots g (relabelSlots f slots) = relabelSlots (g ∘ f) slots
  | [] => rfl
  | s :: rest => by
    rw [relabelSlots, relabelSlots, relabelSlots, s.relabel_relabel, relabelSlots_relabelSlots rest]

theorem Data.relabel_relabel : ∀ d : Data, (d.relabel f).relabel g = d.relabel (g ∘ f)
  | .atom a => by rw [Data.relabel, Data.relabel, Data.relabel]
  | .list ds => by
    rw [Data.relabel, Data.relabel, Data.relabel, relabelItems_relabelItems ds]
  | .record fields => by
    rw [Data.relabel, Data.relabel, Data.relabel, relabelFields_relabelFields fields]
  | .node n => by rw [Data.relabel, Data.relabel, Data.relabel, n.relabel_relabel]

theorem relabelItems_relabelItems : ∀ ds : List Data,
    relabelItems g (relabelItems f ds) = relabelItems (g ∘ f) ds
  | [] => rfl
  | d :: rest => by
    rw [relabelItems, relabelItems, relabelItems, d.relabel_relabel, relabelItems_relabelItems rest]

theorem relabelFields_relabelFields : ∀ fields : List (Text × Data),
    relabelFields g (relabelFields f fields) = relabelFields (g ∘ f) fields
  | [] => rfl
  | (key, d) :: rest => by
    rw [relabelFields, relabelFields, relabelFields, d.relabel_relabel,
      relabelFields_relabelFields rest]

end

end GraphSchema
