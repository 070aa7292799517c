import GraphSchema.Proofs.Node.Parts
import GraphSchema.Proofs.Node.Relabel
import GraphSchema.Proofs.Node.WellTyped

/-!
# Nodes without places

The places of a node and of all nodes below it can be taken away. What is left is as well typed as
before, as it is with any other metadata.

## Main definitions

* `Metadata.unplaced`: metadata without a place.
* `Metadata.unnamed`: metadata without the name of the document.
* `Node.Unplaced`: a node that has no place, and neither have the nodes below it.

## Main statements

* `Node.WellTyped.relabel`, `Node.IsLiteral.relabel`, `Node.IsReference.relabel`: well-typed nodes
  with other metadata.
* `Node.unplaced_relabel`: nodes without places.
-/

namespace GraphSchema

namespace Metadata

/-- Metadata without a place. -/
def unplaced (i : Metadata) : Metadata := { i with span := .none, location := .none }

/-- Metadata with a place in a document without a name. -/
def unnamed (i : Metadata) : Metadata :=
  { i with location := i.location.map fun l => { l with source := .none } }

theorem unplaced_none : unplaced none = none := rfl

end Metadata

variable {f : Metadata → Metadata}

/-- What an attribute should hold it still holds with other metadata. -/
theorem Shape.Fits.relabel {k : Kind} {r : Role} {s : Shape} {d : Data} (h : s.Fits k r d) :
    s.Fits k r (d.relabel f) := by
  have hnode : (∃ c, d = .node c ∧ k.admits r c.kind) →
      ∃ c, d.relabel f = .node c ∧ k.admits r c.kind := by
    rintro ⟨c, rfl, hc⟩
    exact ⟨c.relabel f, Data.relabel_node c, by rwa [Node.kind_relabel]⟩
  cases s with
  | datum b =>
    simp only [Fits] at h ⊢
    split at h
    · obtain ⟨b, rfl⟩ := h
      rw [if_pos ‹_›]
      exact ⟨b, Data.relabel_atom _⟩
    · obtain ⟨t, rfl⟩ := h
      rw [if_neg ‹_›]
      exact ⟨t, Data.relabel_atom _⟩
  | description => exact h.imp (fun h => by rw [h, Data.relabel_atom]) hnode
  | child b => exact h.imp (fun h => ⟨h.1, by rw [h.2, Data.relabel_atom]⟩) hnode
  | children =>
    obtain ⟨cs, rfl, hcs⟩ := h
    refine ⟨cs.map (Node.relabel f), Data.relabel_nodeList cs, fun c hc => ?_⟩
    obtain ⟨b, hb, rfl⟩ := List.mem_map.1 hc
    rw [Node.kind_relabel]
    exact hcs b hb

namespace Node

variable {n : Node}

theorem Shaped.relabel (h : n.Shaped) : (n.relabel f).Shaped where
  roles := by rw [map_role_relabel, kind_relabel, h.roles]
  fits r s hr := by
    rw [kind_relabel] at hr ⊢
    rw [content_relabel]
    exact (h.fits r s hr).relabel

theorem WellTyped.relabel (h : n.WellTyped) : (n.relabel f).WellTyped := by
  induction h with
  | @intro n shaped _ ih =>
    refine .intro shaped.relabel fun r c hc => ?_
    rw [childrenAt_relabel] at hc
    obtain ⟨b, hb, rfl⟩ := List.mem_map.1 hc
    exact ih r b hb

theorem IsLiteral.relabel (h : n.IsLiteral) : (n.relabel f).IsLiteral :=
  ⟨h.wellTyped.relabel, by rw [kind_relabel]; exact h.kind⟩

theorem IsReference.relabel (h : n.IsReference) : (n.relabel f).IsReference :=
  ⟨h.wellTyped.relabel, by rw [kind_relabel]; exact h.kind⟩

@[simp] theorem nameText_relabel (n : Node) : (n.relabel f).nameText = n.nameText := by
  rw [nameText, nameText, name_relabel, Data.text?_relabel]

theorem HasName.relabel (h : n.HasName) : (n.relabel f).HasName := by
  rw [HasName, get_relabel, h, nameText_relabel]
  exact congrArg Except.ok (Data.relabel_atom _)

/-! ## No places -/

/-- Neither the node nor any of the nodes below it has a place. -/
def Unplaced (n : Node) : Prop :=
  ∀ m, m = n ∨ n.Below m → m.info.span = none ∧ m.info.location = none

theorem held_relabel (n : Node) : (n.relabel f).held = n.held.map (relabel f) := by
  rw [held, held, slotNodes, slotNodes, slots_relabel, List.flatMap_map, List.map_flatMap]
  exact List.flatMap_congr fun s _ => by rw [Slot.content_relabel, Data.nodes_relabel]

/-- The nodes below a node with other metadata have other metadata, too. -/
theorem Below.exists_relabel {m : Node} (h : (n.relabel f).Below m) :
    ∃ c : Node, m = c.relabel f := by
  have hpart : ∀ {a b : Node}, b ∈ (a.relabel f).parts → ∃ c : Node, b = c.relabel f := by
    intro a b hb
    have hheld := mem_held_of_mem_parts hb
    rw [held_relabel] at hheld
    obtain ⟨c, -, rfl⟩ := List.mem_map.1 hheld
    exact ⟨c, rfl⟩
  induction h with
  | part hm => exact hpart hm
  | step _ hc ih =>
    obtain ⟨c, rfl⟩ := ih
    exact hpart hc

theorem unplaced_relabel (n : Node) : (n.relabel Metadata.unplaced).Unplaced := by
  rintro m (rfl | hm)
  · rw [info_relabel]
    exact ⟨rfl, rfl⟩
  · obtain ⟨c, rfl⟩ := hm.exists_relabel
    rw [info_relabel]
    exact ⟨rfl, rfl⟩

end Node

end GraphSchema
