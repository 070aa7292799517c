import GraphSchema.Proofs.Node.Parts

/-!
# Trees

In a tree there are nodes in all places of children, and nothing else. A place for a single child
may be empty, whether or not a child must be given there when the node is made, and what does not
stand in such a place may be anything. So a tree without some of its nodes is a tree.

## Main definitions

* `Slot.childNodes`: the children in a slot.
* `Node.IsTree`: trees.
* `Node.Refilled`: slots with other children, and the roles of these slots.

## Main statements

* `Node.WellTyped.isTree`: well-typed nodes are trees.
* `Node.Refilled.withChildren`: other children are never refused.
-/

namespace GraphSchema

open Node

/-- What stands in the place of children are nodes: several of them in a list, or else a single one
or nothing. -/
def Shape.HoldsNodes : Shape → Data → Prop
  | children, d => ∃ cs, d = .nodeList cs
  | _, d => d = .null ∨ ∃ c, d = .node c

namespace Slot

/-- The children in a slot of nodes of a kind. -/
def childNodes (k : Kind) (s : Slot) : List Node :=
  (s.parts (shapeAt k s.role)).filterMap Data.node?

/-- The slot with other children. -/
def refilled (k : Kind) (s : Slot) (cs : List Node) : Slot :=
  refill (shapeAt k s.role) s.role (cs.map .node)

variable {k : Kind} {s : Slot}

theorem size_lt_of_mem_childNodes {n c : Node} (hs : s ∈ n.slots) (hc : c ∈ s.childNodes k) :
    c.size < n.size := by
  obtain ⟨d, hd, hnode⟩ := List.mem_filterMap.1 hc
  have hheld := Data.size_le_of_mem_nodes (s.mem_nodes_of_mem_parts hd hnode)
  have hslot := Slot.size_le_of_mem hs
  cases n
  cases s
  simp only [slots, Slot.size, Slot.content, Node.size] at hheld hslot ⊢
  omega

/-- The children of a slot that holds nothing else, and the slot refilled with them. -/
theorem parts_eq (h : (shapeAt k s.role).HoldsNodes s.content) :
    s.parts (shapeAt k s.role) = (s.childNodes k).map .node ∧ s.refilled k (s.childNodes k) = s ∧
      (shapeAt k s.role ≠ .children → (s.childNodes k).length ≤ 1) := by
  obtain ⟨r, d⟩ := s
  unfold refilled childNodes
  simp only [role, content] at h ⊢
  cases hshape : shapeAt k r with
  | children =>
    rw [hshape] at h
    obtain ⟨cs, rfl⟩ := h
    have hcs : (cs.map Data.node).filterMap Data.node? = cs := by
      rw [List.filterMap_map]
      exact List.filterMap_some
    simp only [Slot.parts, if_true, content, Data.nodeList, Data.items, hcs]
    exact ⟨trivial, rfl, fun hne => absurd rfl hne⟩
  | _ =>
    rw [hshape] at h
    rcases h with rfl | ⟨c, rfl⟩
    · exact ⟨rfl, rfl, fun _ => Nat.zero_le _⟩
    · exact ⟨rfl, rfl, fun _ => Nat.le_refl _⟩

end Slot

namespace Node

/-- The node has the attributes of its kind, and trees in all places of children. -/
inductive IsTree : Node → Prop
  | intro {n : Node} (roles : n.slots.map Slot.role = n.kind.layout.map Prod.fst)
      (holds : ∀ s ∈ n.childSlots, (shapeAt n.kind s.role).HoldsNodes s.content)
      (below : ∀ s ∈ n.childSlots, ∀ c ∈ s.childNodes n.kind, c.IsTree) : n.IsTree

theorem isChildRole_of_mem {n : Node} {s : Slot} (hs : s ∈ n.childSlots) :
    s ∈ n.slots ∧ n.kind.isChildRole s.role :=
  List.mem_filter.1 hs

/-- Well-typed nodes are trees. -/
theorem WellTyped.isTree {n : Node} (h : n.WellTyped) : n.IsTree := by
  induction h with
  | @intro n shaped below ih =>
    have hslot : ∀ s ∈ n.childSlots, ∃ shape, shape.holdsChildren ∧
        (s.role, shape) ∈ n.kind.layout ∧ shapeAt n.kind s.role = shape ∧
        s = .mk s.role (n.content s.role) := by
      intro s hs
      obtain ⟨hs, hchild⟩ := isChildRole_of_mem hs
      rw [shaped.slots_eq] at hs
      obtain ⟨⟨r, shape⟩, he, rfl⟩ := List.mem_map.1 hs
      have hshape : n.kind.shape? r = some shape := Kind.shape?_eq he
      simp only [Slot.role, Kind.isChildRole, hshape, Option.any_some] at hchild
      refine ⟨shape, hchild, he, ?_, rfl⟩
      rw [shapeAt, Slot.role, hshape, Option.getD_some]
    refine .intro shaped.roles (fun s hs => ?_) fun s hs c hc => ?_
    · obtain ⟨shape, hholds, hlayout, hshape, hs⟩ := hslot s hs
      have hfits := shaped.fits _ _ hlayout
      rw [hshape, hs, Slot.content]
      cases shape with
      | children =>
        obtain ⟨cs, hcs, -⟩ := hfits
        exact ⟨cs, hcs⟩
      | child optional =>
        rcases hfits with ⟨-, hnull⟩ | ⟨c, hc, -⟩
        · exact .inl hnull
        · exact .inr ⟨c, hc⟩
      | _ => cases hholds
    · obtain ⟨shape, hholds, hlayout, hshape, heq⟩ := hslot s hs
      refine ih s.role c ?_
      rw [← shaped.filterMap_parts hlayout hholds, ← heq, ← hshape]
      exact hc

/-! ## Other children -/

/-- Some slots of a node were given other children; the changes are the roles of these slots, with
their new children. -/
inductive Refilled (k : Kind) : (old new : List Slot) → (changes : Table Text (List Data)) → Prop
  | nil : Refilled k [] [] []
  | kept {s : Slot} {old new : List Slot} {changes : Table Text (List Data)}
      (h : Refilled k old new changes) : Refilled k (s :: old) (s :: new) changes
  | changed {s : Slot} {cs : List Node} {old new : List Slot} {changes : Table Text (List Data)}
      (hrole : k.isChildRole s.role) (hroom : shapeAt k s.role ≠ .children → cs.length ≤ 1)
      (h : Refilled k old new changes) :
      Refilled k (s :: old) (s.refilled k cs :: new) ((s.role.label, cs.map .node) :: changes)

namespace Refilled

variable {k : Kind} {old new front : List Slot} {changes : Table Text (List Data)}

/-- Where nothing has changed the slots are the same. -/
theorem eq_of_nil (h : Refilled k old new []) : new = old := by
  generalize hchanges : ([] : Table Text (List Data)) = changes at h
  induction h with
  | nil => rfl
  | kept _ ih => rw [ih hchanges]
  | changed _ _ _ => cases hchanges

theorem slotFor_eq {r : Role} {ds : List Data} (hrole : k.isChildRole r)
    (hroom : shapeAt k r ≠ .children → ds.length ≤ 1) :
    slotFor k r.label ds = .ok (refill (shapeAt k r) r ds) :=
  (slotFor_label hrole ds).trans (if_neg fun h => absurd (hroom h.1) (Nat.not_le.2 h.2))

/-- A slot is put in the place of the one with its role. -/
theorem putSlot_append {s t : Slot} (hs : s.role ∉ front.map Slot.role) (ht : t.role = s.role) :
    putSlot t (front ++ s :: old) = front ++ t :: old := by
  induction front with
  | nil => exact if_pos ht.symm
  | cons f front ih =>
    rw [List.map_cons, List.mem_cons, not_or] at hs
    rw [List.cons_append, putSlot, if_neg fun h => hs.1 (ht.symm.trans h.symm), ih hs.2]
    rfl

/-- Putting changed slots in their places one after the other. -/
theorem foldl_putSlot (h : Refilled k old new changes) (front : List Slot)
    (hnodup : ((front ++ old).map Slot.role).Nodup) :
    ∃ slots, changes.mapM (fun entry => slotFor k entry.1 entry.2) = .ok slots ∧
      slots.foldl (fun all s => putSlot s all) (front ++ old) = front ++ new := by
  induction h generalizing front with
  | nil => exact ⟨[], rfl, rfl⟩
  | @kept s old new changes _ ih =>
    have hfront : front ++ s :: old = front ++ [s] ++ old := by simp
    rw [hfront] at hnodup ⊢
    obtain ⟨slots, hslots, hfold⟩ := ih _ hnodup
    exact ⟨slots, hslots, hfold.trans (by simp)⟩
  | @changed s cs old new changes hrole hroom _ ih =>
    have hsame : (s.refilled k cs).role = s.role := by
      unfold Slot.refilled refill
      split <;> rfl
    have hmiddle : ((front ++ [s.refilled k cs] ++ old).map Slot.role).Nodup := by
      simpa [hsame] using hnodup
    have hnot : s.role ∉ front.map Slot.role := by
      rw [List.map_append, List.nodup_append] at hnodup
      exact fun hmem => hnodup.2.2 _ hmem _ List.mem_cons_self rfl
    obtain ⟨slots, hslots, hfold⟩ := ih _ hmiddle
    refine ⟨s.refilled k cs :: slots, ?_, ?_⟩
    · rw [List.mapM_cons, slotFor_eq hrole (by simpa using hroom), hslots]
      rfl
    · rw [List.foldl_cons, putSlot_append hnot hsame]
      simpa using hfold

/-- Children that have changed are not refused. -/
theorem withChildren {n : Node} (h : Refilled n.kind n.slots new changes)
    (hnodup : (n.slots.map Slot.role).Nodup) :
    n.withChildren changes = .ok (n.withSlots new) := by
  obtain ⟨slots, hslots, hfold⟩ := h.foldl_putSlot [] hnodup
  rw [Node.withChildren, hslots]
  exact congrArg (fun slots => Except.ok (n.withSlots slots)) hfold

end Refilled

end Node

end GraphSchema
