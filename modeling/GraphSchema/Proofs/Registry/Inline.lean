import GraphSchema.Proofs.Registry.Extension
import GraphSchema.Proofs.Registry.First

/-!
# Extensions written inline

Extending a type is the same as writing the members of its extensions behind those of its
definition. The extensions of the kind and the name count, in the order of their declarations,
wherever they were declared, and no others.

## Main definitions

* `Node.inlined`: a definition with the children of extensions written behind its own.
* `Registry.Inlines`: one registry is another one with extended definitions and no extensions.
* `Registry.inlined`: the definitions of a registry extended.

## Main statements

* `Registry.Keeps.extendedType?_eq`: the extended types of declarations.
* `Registry.Keeps.inlines_inlined`: extending all definitions.
* `Registry.Keeps.extendedType?_of_inlines`: extended types when definitions were extended before.
-/

namespace GraphSchema

namespace Node

/-- The definition with the children of extensions behind its own, role by role. What holds no
children stays as it is. -/
def inlined (n : Node) (extensions : List Node) : Node :=
  n.withSlots <| n.slots.map fun s =>
    if n.kind.isChildRole s.role then
      .children s.role (s.content.nodes ++ extensions.flatMap fun e => e.childrenAt s.role)
    else s

/-- In a definition of a type, members are the only children. -/
theorem isChildRole_typeDefinition (k : TypeKind) (r : Role) :
    (Kind.typeDefinition k).isChildRole r = decide (r ∈ Kind.members k) := by
  cases k <;> cases r <;> rfl

/-- A definition whose members are those of another one and of its extensions. -/
theorem eq_inlined {k : TypeKind} {n m : Node} {es : List Node} (hn : n.WellTyped)
    (hk : n.kind = .typeDefinition k) (hm : m.WellTyped) (hkind : m.kind = n.kind)
    (hinfo : m.info = n.info)
    (hmembers : ∀ r ∈ Kind.members k, m.childrenAt r = (n :: es).flatMap fun e => e.childrenAt r)
    (hother : ∀ r ∉ Kind.members k, m.content r = n.content r) : m = n.inlined es := by
  have hslots : m.slots = (n.inlined es).slots := by
    rw [hm.shaped.slots_eq, hkind, inlined, withSlots, slots, hn.shaped.slots_eq, List.map_map]
    refine List.map_congr_left fun e _ => ?_
    simp only [Function.comp_apply, Slot.role, hk, isChildRole_typeDefinition, decide_eq_true_eq]
    split
    · rename_i hr
      have hlayout := Kind.mem_layout_typeDefinition hr
      rw [← hk, ← hkind] at hlayout
      rw [(hm.children hlayout).1, hmembers _ hr]
      rfl
    · rw [hother _ ‹_›]
  obtain ⟨kind, info, slots⟩ := m
  obtain rfl : kind = n.kind := hkind
  obtain rfl : info = n.info := hinfo
  obtain rfl : slots = (n.inlined es).slots := hslots
  rfl

end Node

namespace Registry

variable {ns : List Node} {r q : Registry} {name : Atom} {base : Node}

/-- The registry `q` is `r` with each definition of a type replaced by the extended one, and without
extensions. -/
structure Inlines (r q : Registry) : Prop where
  type? : ∀ name, r.extendedType? name = .ok (q.type? name)
  extensions : ∀ k, q.extensions k = []

/-- The definition that a name stands for in the registry, with its extensions; `base` is the one
without them. -/
def extended (r : Registry) (name : Atom) (base : Node) : Node :=
  match r.extendedType? name with
  | .ok (some n) => n
  | _ => base

/-- The registry with extended definitions in the tables of types, and without extensions. -/
def inlined (r : Registry) : Registry :=
  { r with
    types := r.types.map fun e => (e.1, r.extended e.1 e.2)
    scalars := r.scalars.map fun e => (e.1, r.extended e.1 e.2)
    extensions := fun _ => [] }

theorem type?_inlined (r : Registry) (name : Atom) :
    r.inlined.type? name = (r.type? name).map (r.extended name) := by
  rw [Registry.type?, Registry.type?, inlined, Table.get?_map, Table.get?_map]
  cases r.types.get? name <;> rfl

/-- Without extensions a type is what it is defined as. -/
theorem extendedType?_of_extensions {k : TypeKind} (hextensions : r.extensions k = [])
    (hbase : r.type? name = some base) (hk : base.kind = .typeDefinition k) :
    r.extendedType? name = .ok (some base) := by
  have hnone : r.extensionsOf name base = .ok [] := by
    rw [extensionsOf, hk]
    simp only [hextensions]
    rfl
  simp only [extendedType?, hbase, hnone, ok_bind]
  rfl

namespace Keeps

variable (h : Keeps ns r) (hwell : r.WellTyped)

include h hwell

/-- The extended type is the definition with the extensions of its kind and name written inline. -/
theorem extendedType?_eq (hbase : r.type? name = some base) :
    ∃ k, base.kind = .typeDefinition k ∧
      r.extendedType? name = .ok (some (base.inlined (extensionsIn ns k name))) := by
  obtain ⟨k, hentry⟩ := hwell.type? hbase
  obtain ⟨n, hn, hkind, hinfo, hwelln, hmembers, hother⟩ := hwell.extendedType?_eq hbase hentry.kind
  have heq := Node.eq_inlined hentry.wellTyped hentry.kind hwelln hkind hinfo hmembers hother
  rw [extensionsAt, h.getD_extensions] at heq
  exact ⟨k, hentry.kind, heq ▸ hn⟩

theorem inlines_inlined : Inlines r r.inlined where
  extensions _ := rfl
  type? name := by
    rw [type?_inlined]
    cases hbase : r.type? name with
    | none =>
      rw [extendedType?_of_none hbase]
      rfl
    | some base =>
      obtain ⟨k, -, hextended⟩ := h.extendedType?_eq hwell hbase
      rw [Option.map_some, extended, hextended]

/-- Each name stands for the same extended type when definitions were extended before. -/
theorem extendedType?_of_inlines (hq : Inlines r q) (name : Atom) :
    r.extendedType? name = q.extendedType? name := by
  cases hbase : r.type? name with
  | none =>
    have hr := extendedType?_of_none hbase
    have hnone : none = q.type? name := Except.ok.inj (hr.symm.trans (hq.type? name))
    rw [hr, extendedType?_of_none hnone.symm]
  | some base =>
    obtain ⟨k, hk, hextended⟩ := h.extendedType?_eq hwell hbase
    have hinlined : some _ = q.type? name :=
      Except.ok.inj (hextended.symm.trans (hq.type? name))
    rw [extendedType?_of_extensions (hq.extensions k) hinlined.symm hk, hextended]

end Keeps

end Registry

end GraphSchema
