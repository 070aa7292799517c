import GraphSchema.Proofs.Node.Formed
import GraphSchema.Proofs.Table

/-!
# Values of attributes

The attributes of a node and the parts of its metadata are treated alike here: each has a name and a
value. A builder that takes over a value has this value and keeps the values of all else.

## Main definitions

* `Node.Attribute`: the attributes and the parts of the metadata.
* `Node.Builder.value`, `Node.value`: their values.
* `Node.Assignment.Fits`: values that an attribute can have.

## Main statements

* `Node.Builder.value_foldl_assign`, `Node.Builder.foldl_assign_frame`: values that a builder takes
  over.
* `Node.Formed.ext_value`: a node is known by its kind and its values.
-/

namespace GraphSchema.Node

/-- An attribute of a node or a part of its metadata. -/
inductive Attribute where
  | source
  | span
  | location
  | comments
  | ignored
  | data
  | slot (r : Role)
deriving DecidableEq

namespace Attribute

/-- The parts of the metadata. -/
def metadata : List Attribute := [.source, .span, .location, .comments, .ignored, .data]

/-- All attributes and parts of the metadata. -/
def all : List Attribute := metadata ++ Role.all.map .slot

/-- Nodes of the kind have the attribute; all nodes have metadata. -/
def isOf (k : Kind) : Attribute → Bool
  | slot r => k.has r
  | _ => true

/-- The name under which a value is given. -/
def label : Attribute → Text
  | source => "source"
  | span => "loc"
  | location => "source_location"
  | comments => "comments"
  | ignored => "ignored_chars"
  | data => "additional_data"
  | slot r => r.label

theorem find?_label (a : Attribute) : all.find? (fun b => b.label = a.label) = some a := by
  cases a with
  | slot r => cases r <;> decide
  | _ => decide

theorem label_injective : Function.Injective label := by
  intro a b h
  have ha := find?_label a
  rw [h, find?_label b] at ha
  exact (Option.some.inj ha).symm

theorem mem_all (a : Attribute) : a ∈ all := List.mem_of_find?_eq_some (find?_label a)

theorem metadataNames_eq : metadataNames = metadata.map label := rfl

theorem isOf_of_mem_metadata {k : Kind} {a : Attribute} (h : a ∈ metadata) : a.isOf k = true := by
  cases a with
  | slot r => simp [metadata] at h
  | _ => rfl

end Attribute

namespace Assignment

/-- What the value is for. -/
def attribute? : Assignment → Option Attribute
  | source _ => some .source
  | span _ => some .span
  | location _ => some .location
  | comments _ => some .comments
  | ignored _ => some .ignored
  | data _ => some .data
  | slot s => some (.slot s.role)
  | other _ => none

theorem unknown?_eq_none_iff {k : Kind} {v : Assignment} :
    v.unknown? k = none ↔ v.attribute?.any (Attribute.isOf k) := by
  cases v <;> simp [unknown?, attribute?, Attribute.isOf]

/-- Nodes of the kind can have the value: several children come as a sequence, and data have
different keys. -/
def Fits (k : Kind) : Assignment → Prop
  | slot s => (s.role, .children) ∈ k.layout → s.content.sequence?.isSome
  | data entries => (Table.keys entries).Nodup
  | _ => True

end Assignment

/-- The value that a builder has for an attribute. -/
def Builder.value (b : Builder) : Attribute → Assignment
  | .source => .source b.info.source
  | .span => .span b.info.span
  | .location => .location b.info.location
  | .comments => .comments b.info.comments
  | .ignored => .ignored b.info.ignored
  | .data => .data b.info.data
  | .slot r => .slot (.mk r (b.content r))

/-- The value that a node has for an attribute. -/
def value (n : Node) (a : Attribute) : Assignment := n.toBuilder.value a

namespace Builder

variable {b : Builder} {k : Kind} {v : Assignment} {values : List Assignment}

/-- The values after one was taken over. -/
theorem value_assign (b : Builder) (hv : v.Fits k) (a : Attribute) :
    (b.assign v).value a = if v.attribute? = some a then v else b.value a := by
  cases v with
  | slot s =>
    cases a with
    | slot r =>
      simp only [Assignment.attribute?, Option.some.injEq, Attribute.slot.injEq, assign, value,
        content_putSlot]
      split
      · subst r
        cases s
        rfl
      · rfl
    | _ => rfl
  | data entries =>
    cases a with
    | data => exact congrArg Assignment.data (Table.ofLast_of_nodup hv)
    | _ => rfl
  | other name => exact (if_neg (Option.some_ne_none a).symm).symm
  | _ => cases a <;> rfl

/-- The values after some were taken over: the last one for an attribute counts. -/
theorem value_foldl_assign (b : Builder) (hvalues : ∀ v ∈ values, v.Fits k) (a : Attribute) :
    (values.foldl assign b).value a =
      ((values.filter fun v => v.attribute? = some a).getLast?).getD (b.value a) := by
  induction values using List.reverseRecOn with
  | nil => rfl
  | append_singleton values v ih =>
    rw [List.foldl_concat, value_assign _ (hvalues v (by simp)), List.filter_append]
    split
    · rw [List.filter_cons_of_pos (by simpa)]
      simp
    · rw [List.filter_cons_of_neg (by simpa), List.filter_nil, List.append_nil]
      exact ih fun w hw => hvalues w (List.mem_append_left _ hw)

/-- What stays as it is when values are taken over by a builder that has the attributes of its
kind. -/
theorem foldl_assign_frame (hroles : b.slots.map Slot.role = b.kind.layout.map Prod.fst)
    (hknown : ∀ v ∈ values, v.unknown? b.kind = none) :
    (values.foldl assign b).kind = b.kind ∧ (values.foldl assign b).added = b.added ∧
      (values.foldl assign b).slots.map Slot.role = b.slots.map Slot.role := by
  induction values generalizing b with
  | nil => exact ⟨rfl, rfl, rfl⟩
  | cons v values ih =>
    have hkind : (b.assign v).kind = b.kind := by cases v <;> rfl
    have hadded : (b.assign v).added = b.added := by cases v <;> rfl
    have hslots : (b.assign v).slots.map Slot.role = b.slots.map Slot.role := by
      cases v with
      | slot s =>
        have hhas : b.kind.has s.role := by
          simpa [Assignment.unknown?] using hknown _ List.mem_cons_self
        obtain ⟨shape, hshape⟩ := Option.isSome_iff_exists.1 hhas
        refine map_role_putSlot ?_
        rw [hroles]
        exact List.mem_map.2 ⟨_, Kind.shape?_eq_some_iff.1 hshape, rfl⟩
      | _ => rfl
    obtain ⟨hkind', hadded', hslots'⟩ := ih (b := b.assign v) (by rw [hslots, hkind, hroles])
      fun w hw => hkind ▸ hknown w (List.mem_cons_of_mem _ hw)
    exact ⟨hkind'.trans hkind, hadded'.trans hadded, hslots'.trans hslots⟩

end Builder

attribute [ext] Metadata

/-- A node is known by its kind and its values. -/
theorem Formed.ext_value {n m : Node} (h : n.Formed) (hm : m.Formed) (hkind : n.kind = m.kind)
    (hvalue : ∀ a, n.value a = m.value a) : n = m := by
  have hinfo : n.info = m.info :=
    Metadata.ext (Assignment.source.inj (hvalue .source)) (Assignment.span.inj (hvalue .span))
      (Assignment.location.inj (hvalue .location)) (Assignment.comments.inj (hvalue .comments))
      (Assignment.ignored.inj (hvalue .ignored)) (Assignment.data.inj (hvalue .data))
  exact h.ext hm hkind hinfo fun r =>
    (Slot.mk.inj (Assignment.slot.inj (hvalue (.slot r)))).2

end GraphSchema.Node
