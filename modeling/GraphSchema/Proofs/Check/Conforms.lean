import GraphSchema.Proofs.Registry.Extension
import GraphSchema.Wiring

/-!
# Values of types

Which literals are values of which references to types, without saying how this is found out. Types
that are not known and types whose values cannot be given as arguments have all literals as values.

## Main definitions

* `Node.IsRequired`: a declared field that must be given.
* `Wiring.Reads`: the scalar of a name, if there is one, reads a literal.
* `Registry.FitsFields`: the names of the fields of an object are those that are declared.
* `Registry.Conforms`: a literal is a value of a type.

## Main statements

* `Registry.conforms_nonNull_iff`, `Registry.conforms_list_iff`, `Registry.conforms_object_iff` and
  the like: the values of types of one form.
-/

namespace GraphSchema

/-- What is declared must be given: its type is non-null, and it has no default. -/
def Node.IsRequired (declared : Node) : Prop :=
  (∃ type, declared.child? .type = some type ∧ type.kind = .nonNullType) ∧
    declared.content .defaultValue = .null

/-- The scalar of a name, if there is one, reads the literal. -/
def Wiring.Reads (w : Wiring) (name : Text) (value : Node) : Prop :=
  ∀ s, w.scalar? name = some s → ∃ d, s.parseLiteral (.node value) = .ok d

namespace Registry

/-- The fields of an object by their names: none is given twice, all are declared, and none that is
required is missing. -/
structure FitsFields (declared : List Node) (value : Node) : Prop where
  nodup : ((value.childrenAt .fields).map Node.nameText).Nodup
  known : ∀ f ∈ value.childrenAt .fields, ∃ i ∈ declared, i.nameText = f.nameText
  given : ∀ i ∈ declared, i.IsRequired → ∃ f ∈ value.childrenAt .fields, f.nameText = i.nameText

/-- The kinds of literals that no scalar has. -/
abbrev composite : List Kind := [.listValue, .enumValue, .objectValue]

/-- The literal is a value of the type. -/
inductive Conforms (r : Registry) (w : Wiring) : (type value : Node) → Prop
  | nonNull {type inner value : Node} (htype : type.kind = .nonNullType)
      (hinner : type.child? .type = some inner) (hvalue : value.kind ≠ .nullValue)
      (h : r.Conforms w inner value) : r.Conforms w type value
  | null {type value : Node} (htype : type.kind ≠ .nonNullType) (hvalue : value.kind = .nullValue) :
      r.Conforms w type value
  | single {type inner value : Node} (htype : type.kind = .listType)
      (hinner : type.child? .type = some inner) (hvalue : value.kind ≠ .listValue)
      (h : r.Conforms w inner value) : r.Conforms w type value
  | items {type inner value : Node} (htype : type.kind = .listType)
      (hinner : type.child? .type = some inner) (hvalue : value.kind = .listValue)
      (nested : inner.kind = .listType → ∀ item ∈ value.childrenAt .values, item.kind = .listValue)
      (h : ∀ item ∈ value.childrenAt .values, r.Conforms w inner item) : r.Conforms w type value
  | passed {type value : Node} {name : Atom} (htype : type.kind = .namedType)
      (hname : type.key = .ok name) (hpass : r.isInputType name = false) : r.Conforms w type value
  | scalar {type value base : Node} {name : Atom} (htype : type.kind = .namedType)
      (hname : type.key = .ok name) (hbase : r.type? name = some base)
      (hkind : base.kind = .typeDefinition .scalar) (hvalue : value.kind ∉ composite)
      (h : w.Reads base.nameText value) : r.Conforms w type value
  | enum {type value base : Node} {name : Atom} (htype : type.kind = .namedType)
      (hname : type.key = .ok name) (hbase : r.type? name = some base)
      (hkind : base.kind = .typeDefinition .enum) (hvalue : value.kind = .enumValue)
      (h : ∃ e ∈ r.membersOf .enum name base .values, value.content .value = .text e.nameText) :
      r.Conforms w type value
  | object {type value base : Node} {name : Atom} (htype : type.kind = .namedType)
      (hname : type.key = .ok name) (hbase : r.type? name = some base)
      (hkind : base.kind = .typeDefinition .inputObject) (hvalue : value.kind = .objectValue)
      (hfits : FitsFields (r.membersOf .inputObject name base .fields) value)
      (h : ∀ i ∈ r.membersOf .inputObject name base .fields, ∀ f ∈ value.childrenAt .fields,
        i.nameText = f.nameText → ∀ t x, i.child? .type = some t → f.child? .value = some x →
          r.Conforms w t x) : r.Conforms w type value

section Forms

variable {r : Registry} {w : Wiring} {type value inner base : Node} {name : Atom}

theorem conforms_nonNull_iff (htype : type.kind = .nonNullType)
    (hinner : type.child? .type = some inner) :
    r.Conforms w type value ↔ value.kind ≠ .nullValue ∧ r.Conforms w inner value := by
  constructor
  · intro h
    cases h <;> simp_all
  · intro hall
    obtain ⟨hvalue, h⟩ := hall
    exact .nonNull htype hinner hvalue h

theorem conforms_list_iff (htype : type.kind = .listType)
    (hinner : type.child? .type = some inner) (hnull : value.kind ≠ .nullValue) :
    r.Conforms w type value ↔
      if value.kind = .listValue then
        ∀ item ∈ value.childrenAt .values,
          (inner.kind = .listType → item.kind = .listValue) ∧ r.Conforms w inner item
      else r.Conforms w inner value := by
  constructor
  · intro h
    cases h with
    | single _ hinner' hvalue h =>
      rw [hinner] at hinner'
      cases hinner'
      rwa [if_neg hvalue]
    | items _ hinner' hvalue nested h =>
      rw [hinner] at hinner'
      cases hinner'
      rw [if_pos hvalue]
      exact fun item hitem => ⟨fun hk => nested hk item hitem, h item hitem⟩
    | null _ hvalue => exact absurd hvalue hnull
    | _ => simp_all
  · intro h
    split at h
    · exact .items htype hinner ‹_› (fun hk item hitem => (h item hitem).1 hk)
        fun item hitem => (h item hitem).2
    · exact .single htype hinner ‹_› h

/-- The name of a type that is known and may be given is not passed over. -/
theorem isInputType_of_kind {k : TypeKind} (hbase : r.type? name = some base)
    (hkind : base.kind = .typeDefinition k) : r.isInputType name = k.isInput := by
  rw [isInputType, hbase, Option.any_some, isInputDefinition, hkind]

theorem conforms_scalar_iff (htype : type.kind = .namedType) (hname : type.key = .ok name)
    (hnull : value.kind ≠ .nullValue) (hbase : r.type? name = some base)
    (hkind : base.kind = .typeDefinition .scalar) :
    r.Conforms w type value ↔ value.kind ∉ composite ∧ w.Reads base.nameText value := by
  have hinput : r.isInputType name = true := isInputType_of_kind hbase hkind
  constructor
  · intro h
    cases h <;> simp_all
  · intro hall
    obtain ⟨hvalue, h⟩ := hall
    exact .scalar htype hname hbase hkind hvalue h

theorem conforms_enum_iff (htype : type.kind = .namedType) (hname : type.key = .ok name)
    (hnull : value.kind ≠ .nullValue) (hbase : r.type? name = some base)
    (hkind : base.kind = .typeDefinition .enum) :
    r.Conforms w type value ↔ value.kind = .enumValue ∧
      ∃ e ∈ r.membersOf .enum name base .values, value.content .value = .text e.nameText := by
  have hinput : r.isInputType name = true := isInputType_of_kind hbase hkind
  constructor
  · intro h
    cases h <;> simp_all
  · intro hall
    obtain ⟨hvalue, h⟩ := hall
    exact .enum htype hname hbase hkind hvalue h

theorem conforms_object_iff (htype : type.kind = .namedType) (hname : type.key = .ok name)
    (hnull : value.kind ≠ .nullValue) (hbase : r.type? name = some base)
    (hkind : base.kind = .typeDefinition .inputObject) :
    r.Conforms w type value ↔ value.kind = .objectValue ∧
      FitsFields (r.membersOf .inputObject name base .fields) value ∧
      ∀ i ∈ r.membersOf .inputObject name base .fields, ∀ f ∈ value.childrenAt .fields,
        i.nameText = f.nameText → ∀ t x, i.child? .type = some t → f.child? .value = some x →
          r.Conforms w t x := by
  have hinput : r.isInputType name = true := isInputType_of_kind hbase hkind
  constructor
  · intro h
    cases h with
    | object _ hname' hbase' _ hvalue hfits h =>
      rw [hname] at hname'
      cases hname'
      rw [hbase] at hbase'
      cases hbase'
      exact ⟨hvalue, hfits, h⟩
    | _ => simp_all
  · intro hall
    obtain ⟨hvalue, hfits, h⟩ := hall
    exact .object htype hname hbase hkind hvalue hfits h

end Forms

end Registry

end GraphSchema
