import GraphSchema.Proofs.Node.Parts

/-!
# Constituents of nodes

Apart from truth values, numbers and quoted texts, what the attributes of a node hold are names and
nodes: its constituents, in the order of the attributes.

## Main definitions

* `Kind.holdsName`: the attributes that hold names.
* `Constituent`, `Node.constituents`: the names and nodes that the attributes of a node hold.

## Main statements

* `Node.filterMap_constituents`: the nodes among the constituents.
* `Node.name_mem_constituents`: the names among them.
-/

namespace GraphSchema

/-- Whether an attribute holds a name: that of the node itself, that of an operation, or the name
that an enum literal is. -/
def Kind.holdsName (k : Kind) : Role → Bool
  | .name | .operation => true
  | .value => k = .enumValue
  | _ => false

/-- A name or a node that an attribute holds. -/
inductive Constituent where
  | name (t : Text)
  | node (n : Node)

/-- The node, if the constituent is one. -/
def Constituent.node? : Constituent → Option Node
  | node n => some n
  | name _ => none

theorem Data.text?_eq_some {d : Data} {t : Text} : d.text? = some t ↔ d = .text t := by
  constructor
  · intro h
    unfold text? at h
    split at h
    · rw [Option.some.inj h]
    · cases h
  · rintro rfl
    rfl

namespace Slot

/-- The name that an attribute of a node holds, if it holds one. -/
def names (k : Kind) (s : Slot) : List Text :=
  if k.holdsName s.role then s.content.text?.toList else []

/-- The name and the nodes that an attribute of a node holds. -/
def constituents (k : Kind) (s : Slot) : List Constituent :=
  (s.names k).map .name ++ s.content.nodes.map .node

end Slot

/-- The names and nodes in slots, in order. -/
def slotConstituents (k : Kind) (slots : List Slot) : List Constituent :=
  slots.flatMap (Slot.constituents k)

/-- The names and nodes that the attributes of a node hold, in order. -/
def Node.constituents (n : Node) : List Constituent := slotConstituents n.kind n.slots

/-! ## Slots -/

section

variable {k : Kind} {r : Role} {s : Slot} {slots : List Slot}

@[simp] theorem slotConstituents_nil : slotConstituents k [] = [] := rfl

@[simp] theorem slotConstituents_cons :
    slotConstituents k (s :: slots) = s.constituents k ++ slotConstituents k slots :=
  List.flatMap_cons

theorem Slot.constituents_of_text (h : s.content.text? = none) :
    s.constituents k = s.content.nodes.map .node := by
  rw [constituents, names, h, Option.toList_none, ite_self]
  rfl

@[simp] theorem Slot.constituents_child {n : Node} :
    (child r n).constituents k = [.node n] :=
  constituents_of_text rfl

@[simp] theorem Slot.constituents_children {ns : List Node} :
    (children r ns).constituents k = ns.map .node := by
  rw [constituents_of_text rfl, nodes_content_children]

theorem filterMap_map_node (ns : List Node) :
    (ns.map Constituent.node).filterMap Constituent.node? = ns := by
  simp [List.filterMap_map, Function.comp_def, Constituent.node?]

theorem filterMap_slotConstituents (k : Kind) (slots : List Slot) :
    (slotConstituents k slots).filterMap Constituent.node? = slotNodes slots := by
  induction slots with
  | nil => rfl
  | cons s rest ih =>
    have hnames : ∀ ts : List Text,
        (ts.map Constituent.name).filterMap Constituent.node? = [] := by
      simp [List.filterMap_map, Function.comp_def, Constituent.node?]
    rw [slotConstituents_cons, slotNodes_cons, List.filterMap_append, ih, Slot.constituents,
      List.filterMap_append, hnames, filterMap_map_node, List.nil_append]

end

namespace Node

variable {n : Node}

/-- The nodes among the constituents are those that the attributes hold. -/
theorem filterMap_constituents (n : Node) :
    n.constituents.filterMap Constituent.node? = n.held :=
  filterMap_slotConstituents _ _

theorem node_mem_constituents {c : Node} (h : c ∈ n.held) : .node c ∈ n.constituents := by
  rw [← filterMap_constituents] at h
  obtain ⟨x, hx, hnode⟩ := List.mem_filterMap.1 h
  cases x with
  | node m =>
    cases hnode
    exact hx
  | name t => cases hnode

theorem name_mem_constituents {r : Role} {t : Text} (hr : n.kind.holdsName r)
    (ht : n.content r = .text t) : .name t ∈ n.constituents := by
  obtain ⟨s, hs, rfl, hcontent⟩ := exists_slot_of_content (n := n) (r := r) (by rw [ht]; nofun)
  refine List.mem_flatMap.2 ⟨s, hs, List.mem_append_left _ (List.mem_map_of_mem ?_)⟩
  rw [Slot.names, if_pos hr, hcontent, ht]
  exact List.mem_singleton_self t

end Node

end GraphSchema
