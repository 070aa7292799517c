import GraphSchema.Proofs.Node.Builder
import Mathlib.Data.List.Forall2

/-!
# Nodes as they are built

A node that was built has the attributes of its kind, and sequences where there are several
children. What else the attributes hold is not checked. Such a node is known by its kind, its
metadata and what its attributes hold.

## Main definitions

* `Node.Formed`: nodes as they are built.

## Main statements

* `Node.Builder.formed_of_build`: each node that was built is one of these.
* `Node.Formed.ext`: what determines such a node.
* `Node.Formed.put`: another slot in the place of the one with its role.
* `Node.Formed.build_toBuilder`: building a node from itself.
-/

namespace GraphSchema

/-- Steps that succeed, one by one. -/
theorem forall₂_of_mapM_eq_ok {α β ε : Type} {f : α → Except ε β} {xs : List α} {ys : List β}
    (h : xs.mapM f = .ok ys) : List.Forall₂ (fun x y => f x = .ok y) xs ys := by
  induction xs generalizing ys with
  | nil =>
    cases h
    exact .nil
  | cons x xs ih =>
    rw [List.mapM_cons] at h
    cases hx : f x with
    | error e =>
      rw [hx] at h
      cases h
    | ok y =>
      rw [hx, ok_bind] at h
      cases hxs : xs.mapM f with
      | error e =>
        rw [hxs] at h
        cases h
      | ok rest =>
        rw [hxs] at h
        cases h
        exact .cons hx (ih hxs)

theorem Data.isNull_iff {d : Data} : d.isNull = true ↔ d = .null := by
  cases d with
  | atom a => cases a <;> simp [isNull]
  | _ => simp [isNull]

namespace Node

section

variable {R : Slot → Role × Shape → Prop} {slots : List Slot} {l : List (Role × Shape)}

/-- Slots that belong to attributes, one by one, have their roles. -/
theorem map_role_of_forall₂ (hR : ∀ s e, R s e → s.role = e.1) (h : List.Forall₂ R slots l) :
    slots.map Slot.role = l.map Prod.fst := by
  induction h with
  | nil => rfl
  | cons hs _ ih => rw [List.map_cons, List.map_cons, hR _ _ hs, ih]

/-- The slot that belongs to an attribute is found by its role. -/
theorem find?_role_of_forall₂ (hR : ∀ s e, R s e → s.role = e.1) (h : List.Forall₂ R slots l)
    (hnodup : (l.map Prod.fst).Nodup) {r : Role} {shape : Shape} (hr : (r, shape) ∈ l) :
    ∃ slot, slots.find? (fun t => t.role = r) = some slot ∧ R slot (r, shape) := by
  induction h with
  | nil => cases hr
  | @cons slot entry slots l hslot _ ih =>
    rw [List.map_cons, List.nodup_cons] at hnodup
    rcases List.mem_cons.1 hr with rfl | hr
    · exact ⟨slot, List.find?_cons_of_pos (by simpa using hR _ _ hslot), hslot⟩
    · obtain ⟨found, hfound, hfit⟩ := ih hnodup.2 hr
      have hne : slot.role ≠ r := by
        rw [hR _ _ hslot]
        intro heq
        subst heq
        exact hnodup.1 (List.mem_map.2 ⟨_, hr, rfl⟩)
      exact ⟨found, by rw [List.find?_cons_of_neg (by simpa using hne), hfound], hfit⟩

end

/-- The node has the attributes of its kind, and sequences in those that hold several children. -/
structure Formed (n : Node) : Prop where
  roles : n.slots.map Slot.role = n.kind.layout.map Prod.fst
  sequences : ∀ r, (r, .children) ∈ n.kind.layout → ∃ ds, n.content r = .list ds

theorem Shaped.formed {n : Node} (h : n.Shaped) : n.Formed where
  roles := h.roles
  sequences r hr := by
    obtain ⟨cs, hcs, -⟩ := h.fits r _ hr
    exact ⟨_, hcs⟩

theorem content_mk {k : Kind} {i : Metadata} {slots : List Slot} (r : Role) :
    (mk k i slots).content r =
      ((slots.find? fun s => s.role = r).map Slot.content).getD .null := rfl

/-- What an attribute holds in slots as nodes of the kind have them. -/
theorem content_map_sequenced {k : Kind} {slots : List Slot}
    (h : slots.map Slot.role = k.layout.map Prod.fst) (i : Metadata) (r : Role) :
    (mk k i (slots.map k.sequenced)).content r =
      k.held r (((slots.find? fun s => s.role = r).map Slot.content).getD .null) := by
  have hfind : (slots.map k.sequenced).find? (fun s => s.role = r) =
      (slots.find? fun s => s.role = r).map k.sequenced := List.find?_map ..
  rw [content_mk, hfind]
  cases hslot : slots.find? fun s => s.role = r with
  | some s =>
    obtain rfl : s.role = r := by simpa using List.find?_some hslot
    rfl
  | none =>
    -- If several children belonged there, there would be a slot for them.
    refine (if_neg fun hshape => ?_).symm
    have hmem : r ∈ slots.map Slot.role := by
      rw [h]
      exact List.mem_map.2 ⟨_, Kind.shape?_eq_some_iff.1 hshape, rfl⟩
    obtain ⟨s, hs, hr⟩ := List.mem_map.1 hmem
    exact List.find?_eq_none.1 hslot s hs (by simpa using hr)

/-- What an attribute holds after a slot was put in the place of the one with its role. -/
theorem content_putSlot (n : Node) (s : Slot) (r : Role) :
    (n.withSlots (putSlot s n.slots)).content r =
      if s.role = r then s.content else n.content r :=
  n.toBuilder.content_putSlot s r

namespace Formed

variable {n m : Node} {r : Role} {shape : Shape}

/-- The slots of such a node, attribute by attribute. -/
theorem slots_eq (h : n.Formed) : n.slots = n.kind.layout.map fun e => .mk e.1 (n.content e.1) :=
  slots_eq_map h.roles n.kind.nodup_roles

/-- A node is known by its kind, its metadata and what its attributes hold. -/
theorem ext (h : n.Formed) (hm : m.Formed) (hkind : n.kind = m.kind) (hinfo : n.info = m.info)
    (hcontent : ∀ r, n.content r = m.content r) : n = m := by
  have hslots : n.slots = m.slots := by
    rw [h.slots_eq, hm.slots_eq, hkind]
    exact List.map_congr_left fun e _ => by rw [hcontent]
  cases n
  cases m
  cases hkind
  cases hinfo
  cases hslots
  rfl

/-- Another slot in the place of the one with its role. -/
theorem put (h : n.Formed) {s : Slot} (hs : (s.role, shape) ∈ n.kind.layout)
    (hseq : shape = .children → ∃ ds, s.content = .list ds) :
    (n.withSlots (putSlot s n.slots)).Formed where
  roles := by
    have hmem : s.role ∈ n.slots.map Slot.role := by
      rw [h.roles]
      exact List.mem_map.2 ⟨_, hs, rfl⟩
    exact (map_role_putSlot hmem).trans h.roles
  sequences r hr := by
    rw [content_putSlot]
    split
    · subst r
      exact hseq (Kind.shape_eq_of_mem hs hr)
    · exact h.sequences r hr

/-- The children of such a node, attribute by attribute. -/
theorem namedChildren_eq (h : n.Formed) :
    n.namedChildren = (n.kind.layout.filter fun e => e.2.holdsChildren).map fun e =>
      (e.1, (Slot.mk e.1 (n.content e.1)).parts e.2) := by
  have hchild : ∀ e ∈ n.kind.layout,
      n.kind.isChildRole (Slot.mk e.1 (n.content e.1)).role = e.2.holdsChildren := by
    rintro ⟨r, s⟩ he
    rw [Slot.role, Kind.isChildRole, Kind.shape?_eq he]
    rfl
  rw [namedChildren, childSlots, h.slots_eq, List.filter_map, List.map_map]
  rw [List.filter_congr (q := fun e => e.2.holdsChildren) hchild]
  refine List.map_congr_left fun e he => ?_
  have hmem : e ∈ n.kind.layout := (List.mem_filter.1 he).1
  have hshape : shapeAt n.kind e.1 = e.2 := by rw [shapeAt, Kind.shape?_eq hmem]; rfl
  simp only [Function.comp_apply, Slot.role, hshape]

/-- A node is what is built from all that is known about it. -/
theorem build_toBuilder (h : n.Formed) : n.toBuilder.build = .ok n := by
  rw [Builder.build_eq (b := n.toBuilder) h.roles h.sequences]
  cases n
  rfl

end Formed

/-! ## Built nodes -/

namespace Builder

variable {b : Builder} {n : Node}

theorem settle_children {given : Option Data} {d : Data} (h : settle .children given = .ok d) :
    ∃ ds, d = .list ds := by
  unfold settle at h
  simp only at h
  split at h
  · cases h
    exact ⟨_, rfl⟩
  · cases h

/-- Each node that was built has the attributes of its kind, and sequences where these belong. -/
theorem formed_of_build (h : b.build = .ok n) : n.Formed := by
  unfold build at h
  split at h
  · cases h
  generalize hslots : (b.kind.layout.mapM fun entry => do
    let given := (b.slots.find? fun s => s.role = entry.1).map Slot.content
    return Slot.mk entry.1 (← settle entry.2 given) : Except Fault (List Slot)) = slots at h
  cases slots with
  | error e => cases h
  | ok slots =>
    cases h
    have hsettled : List.Forall₂ (fun s e => s.role = e.1 ∧
        ∃ given, settle e.2 given = .ok s.content) slots b.kind.layout := by
      refine (forall₂_of_mapM_eq_ok hslots).flip.imp fun s e hs => ?_
      dsimp only at hs
      cases hd : settle e.2 ((b.slots.find? fun s => s.role = e.1).map Slot.content) with
      | error f =>
        rw [hd] at hs
        cases hs
      | ok d =>
        rw [hd] at hs
        cases hs
        exact ⟨rfl, _, hd⟩
    refine ⟨map_role_of_forall₂ (fun _ _ h => h.1) hsettled, fun r hr => ?_⟩
    obtain ⟨s, hs, -, given, hsettle⟩ :=
      find?_role_of_forall₂ (fun _ _ h => h.1) hsettled b.kind.nodup_roles hr
    obtain ⟨ds, hds⟩ := settle_children hsettle
    exact ⟨ds, by rw [content_mk, hs]; exact hds⟩

end Builder

end Node

end GraphSchema
