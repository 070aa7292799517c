import GraphSchema.Proofs.Registry.Extension
import Mathlib.Data.List.Flatten

/-!
# Parts of nodes

A node is made of its description and its children. They are the nodes that its attributes hold, in
the order of the attributes.

## Main definitions

* `Node.held`: the nodes that the attributes of a node hold.
* `Node.parts`: the description of a node, and its children.
* `Node.Below`: the nodes below a node.

## Main statements

* `Node.Shaped.parts_sublist`: parts are held, in the same order.
* `Node.WellTyped.of_mem_parts`: parts of a well-typed node are well typed.
-/

namespace GraphSchema

/-- The nodes in slots, in order. -/
def slotNodes (slots : List Slot) : List Node := slots.flatMap fun s => s.content.nodes

/-! ## Slots -/

section

variable {r : Role} {n : Node} {s : Slot} {slots : List Slot}

@[simp] theorem slotNodes_nil : slotNodes [] = [] := rfl

@[simp] theorem slotNodes_cons : slotNodes (s :: slots) = s.content.nodes ++ slotNodes slots :=
  List.flatMap_cons

@[simp] theorem Slot.nodes_content_datum {a : Atom} : (datum r a).content.nodes = [] := rfl

@[simp] theorem Slot.nodes_content_child : (child r n).content.nodes = [n] := rfl

end

/-- The nodes among the children in a slot are nodes that the slot holds. -/
theorem Slot.mem_nodes_of_mem_parts (s : Slot) {shape : Shape} {d : Data} {n : Node}
    (hd : d ∈ s.parts shape) (hn : d.node? = some n) : n ∈ s.content.nodes := by
  unfold Slot.parts at hd
  split at hd
  · cases hs : s.content with
    | list ds =>
      rw [hs] at hd
      exact List.mem_filterMap.2 ⟨d, hd, hn⟩
    | _ =>
      rw [hs] at hd
      cases hd
  · split at hd
    · cases hd
    · cases List.mem_singleton.1 hd
      cases hs : s.content with
      | node m =>
        rw [hs] at hn
        cases hn
        exact List.mem_singleton_self n
      | _ =>
        rw [hs] at hn
        cases hn

/-- Only the first attribute is a description. -/
theorem Kind.description_first (k : Kind) :
    .description ∉ k.layout.map Prod.fst ∨
      ∃ rest, k.layout = (.description, .description) :: rest := by
  cases k with
  | schemaDefinition | typeDefinition | fieldDefinition | inputValueDefinition
  | enumValueDefinition | directiveDefinition => exact .inr ⟨_, rfl⟩
  | typeExtension k => cases k <;> exact .inl (by decide)
  | bare g => exact .inl List.not_mem_nil
  | _ => exact .inl (by decide)

namespace Node

/-- The nodes that the attributes of a node hold, in order. -/
def held (n : Node) : List Node := slotNodes n.slots

/-- The description of a node, if it has one, and its children. -/
def parts (n : Node) : List Node := n.childrenAt .description ++ n.children

/-- The nodes below a node: its parts, their parts, and so on. -/
inductive Below (n : Node) : Node → Prop
  | part {m : Node} (h : m ∈ n.parts) : Below n m
  | step {m c : Node} (h : Below n m) (hc : c ∈ m.parts) : Below n c

/-- What an attribute holds stands in a slot. -/
theorem exists_slot_of_content {n : Node} {r : Role} (h : n.content r ≠ .null) :
    ∃ s ∈ n.slots, s.role = r ∧ s.content = n.content r := by
  rw [content, content?, slot?] at h ⊢
  cases hfind : n.slots.find? fun s => s.role = r with
  | none =>
    rw [hfind] at h
    exact absurd rfl h
  | some s =>
    have hrole : s.role = r := by simpa using List.find?_some hfind
    exact ⟨s, List.mem_of_find?_eq_some hfind, hrole, rfl⟩

/-- The parts of a node are held by its attributes. -/
theorem mem_held_of_mem_parts {n c : Node} (h : c ∈ n.parts) : c ∈ n.held := by
  rcases List.mem_append.1 h with h | h
  · obtain ⟨s, hs, -, hcontent⟩ := exists_slot_of_content (n := n) (r := .description) (by
      intro hnull
      rw [childrenAt, hnull] at h
      cases h)
    exact List.mem_flatMap.2 ⟨s, hs, hcontent ▸ h⟩
  · obtain ⟨entry, hentry, hc⟩ := List.mem_flatMap.1 h
    obtain ⟨s, hs, rfl⟩ := List.mem_map.1 hentry
    refine List.mem_flatMap.2 ⟨s, List.mem_of_mem_filter hs, ?_⟩
    obtain ⟨d, hd, hnode⟩ := List.mem_filterMap.1 hc
    exact s.mem_nodes_of_mem_parts hd hnode

/-! ## Parts of shaped nodes -/

namespace Shaped

variable {n : Node}

theorem held_eq (h : n.Shaped) : n.held = n.kind.layout.flatMap fun e => n.childrenAt e.1 := by
  rw [held, slotNodes, h.slots_eq, List.flatMap_map]
  rfl

/-- What holds children holds nothing else. -/
theorem filterMap_parts {r : Role} {s : Shape} (h : n.Shaped) (hr : (r, s) ∈ n.kind.layout)
    (hs : s.holdsChildren) :
    ((Slot.mk r (n.content r)).parts s).filterMap Data.node? = n.childrenAt r := by
  have hfits := h.fits r s hr
  cases s with
  | children =>
    obtain ⟨cs, hcs, -⟩ := hfits
    simp only [Slot.parts, if_true, Slot.content, childrenAt, hcs]
    rfl
  | child optional =>
    rcases hfits with ⟨-, hnull⟩ | ⟨c, hc, -⟩
    · simp only [Slot.parts, Slot.content, childrenAt, hnull]
      rfl
    · simp only [Slot.parts, Slot.content, childrenAt, hc]
      rfl
  | _ => cases hs

theorem children_eq (h : n.Shaped) :
    n.children =
      (n.kind.layout.filter fun e => e.2.holdsChildren).flatMap fun e => n.childrenAt e.1 := by
  rw [children, h.namedChildren_eq, List.flatMap_map]
  refine List.flatMap_congr fun e he => ?_
  obtain ⟨he, hs⟩ := List.mem_filter.1 he
  exact h.filterMap_parts he hs

/-- The parts of a node are held by its attributes, and stand in the same order. -/
theorem parts_sublist (h : n.Shaped) : n.parts.Sublist n.held := by
  rw [parts, h.children_eq, h.held_eq]
  rcases n.kind.description_first with hnot | ⟨rest, hrest⟩
  · rw [childrenAt, content_eq_null_of_not_mem (h.roles ▸ hnot)]
    exact List.filter_sublist.flatMap _
  · rw [hrest, List.filter_cons_of_neg Bool.false_ne_true, List.flatMap_cons]
    exact (List.filter_sublist.flatMap _).append_left _

end Shaped

/-- Parts of a well-typed node are well typed. -/
theorem WellTyped.of_mem_parts {n c : Node} (h : n.WellTyped) (hc : c ∈ n.parts) :
    c.WellTyped := by
  have hheld := mem_held_of_mem_parts hc
  rw [h.shaped.held_eq] at hheld
  obtain ⟨e, -, he⟩ := List.mem_flatMap.1 hheld
  exact h.of_mem he

theorem Below.wellTyped {n m : Node} (h : n.Below m) (hn : n.WellTyped) : m.WellTyped := by
  induction h with
  | part hm => exact hn.of_mem_parts hm
  | step _ hc ih => exact ih.of_mem_parts hc

end Node

end GraphSchema
