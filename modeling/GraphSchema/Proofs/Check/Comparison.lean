import GraphSchema.Proofs.Check.Definition
import GraphSchema.Proofs.Check.Match

/-!
# Comparisons that lead to others

A value that is compared with a type may have parts that are compared in turn: with the type below a
non-null or list wrapper, or, if the type is one of objects, with the types of its fields.

## Main definitions

* `Comparison`: a value and the type with which it is compared.
* `Registry.Step`: a comparison that follows directly on another one.
* `Registry.Leads`: a comparison to which another one leads, with or without objects in between.

## Main statements

* `Registry.Leads.isProper`: comparisons of literals lead to comparisons of literals.
* `Registry.Leads.innermost_eq`: with no objects in between, the name of the type stays the same.
* `Usage.includes_of_leads`: comparisons to which another one leads are carried out with it.
-/

namespace GraphSchema

/-- A value that is compared with a type. -/
structure Comparison where
  value : Node
  type : Node

namespace Comparison

/-- A literal is compared with a reference. -/
structure IsProper (c : Comparison) : Prop where
  value : c.value.IsLiteral
  type : c.type.IsReference

end Comparison

namespace Registry

/-- A comparison follows on another one; it enters an object if the other one is that of an object,
the names of whose fields are in order. -/
inductive Step (r : Registry) : (enters : Bool) → Comparison → Comparison → Prop
  | nonNull {value type inner : Node} (htype : type.kind = .nonNullType)
      (hinner : type.child? .type = some inner) (hvalue : value.kind ≠ .nullValue) :
      r.Step false ⟨value, type⟩ ⟨value, inner⟩
  | single {value type inner : Node} (htype : type.kind = .listType)
      (hinner : type.child? .type = some inner) (hnull : value.kind ≠ .nullValue)
      (hvalue : value.kind ≠ .listValue) : r.Step false ⟨value, type⟩ ⟨value, inner⟩
  | item {value type inner item : Node} (htype : type.kind = .listType)
      (hinner : type.child? .type = some inner) (hvalue : value.kind = .listValue)
      (hitem : item ∈ value.childrenAt .values) : r.Step false ⟨value, type⟩ ⟨item, inner⟩
  | field {value type base declared given x t : Node} {name : Atom} (htype : type.kind = .namedType)
      (hname : type.key = .ok name) (hbase : r.type? name = some base)
      (hkind : base.kind = .typeDefinition .inputObject) (hvalue : value.kind = .objectValue)
      (hnodup : ((value.childrenAt .fields).map Node.nameText).Nodup)
      (hknown : ∀ f ∈ value.childrenAt .fields,
        ∃ i ∈ r.membersOf .inputObject name base .fields, i.nameText = f.nameText)
      (hdeclared : declared ∈ r.membersOf .inputObject name base .fields)
      (hgiven : given ∈ value.childrenAt .fields) (hsame : given.nameText = declared.nameText)
      (ht : declared.child? .type = some t) (hx : given.child? .value = some x) :
      r.Step true ⟨value, type⟩ ⟨x, t⟩

/-- A comparison leads to another one, with objects in between or without any. -/
inductive Leads (r : Registry) : (enters : Bool) → Comparison → Comparison → Prop
  | refl (c : Comparison) : r.Leads false c c
  | step {first rest : Bool} {a b c : Comparison} (h : r.Step first a b) (hs : r.Leads rest b c) :
      r.Leads (first || rest) a c

/-- The definition of a type of objects, with the fields of its extensions. -/
theorem WellTyped.exists_inputObject {r : Registry} (hr : r.WellTyped) {name : Atom} {base : Node}
    (hbase : r.type? name = some base) (hkind : base.kind = .typeDefinition .inputObject) :
    ∃ n, r.extendedType? name = .ok (some n) ∧ n.kind = .typeDefinition .inputObject ∧
      n.childrenAt .fields = r.membersOf .inputObject name base .fields ∧
      (n.content .fields).items = (n.childrenAt .fields).map Data.node ∧
      ∀ i ∈ n.childrenAt .fields, i.WellTyped ∧ i.kind = .inputValueDefinition := by
  obtain ⟨n, hn, hk, -, hwell, hmembers, -⟩ := hr.extendedType?_eq hbase hkind
  have hobject := hk.trans hkind
  exact ⟨n, hn, hobject, hmembers .fields (by simp [Kind.members]),
    hwell.typeMembers (.inl hobject) (by simp [Kind.members]) (by simp [Kind.admits])⟩

variable {r : Registry} {enters : Bool} {a b : Comparison}

theorem Step.isProper (hr : r.WellTyped) (h : r.Step enters a b) (ha : a.IsProper) :
    b.IsProper := by
  obtain ⟨hvalue, htype⟩ := ha
  cases h with
  | nonNull hk hinner => exact ⟨hvalue, htype.of_child? (.inl hk) hinner⟩
  | single hk hinner => exact ⟨hvalue, htype.of_child? (.inr hk) hinner⟩
  | item hk hinner hlist hitem =>
    exact ⟨(hvalue.items hlist).2 _ hitem, htype.of_child? (.inr hk) hinner⟩
  | field hk hname hbase hkind hobject _ _ hdeclared hgiven _ ht hx =>
    obtain ⟨n, -, -, hfields, -, hparams⟩ := hr.exists_inputObject hbase hkind
    obtain ⟨hi, hik⟩ := hparams _ (hfields ▸ hdeclared)
    obtain ⟨hf, hfk⟩ := (hvalue.fields hobject).2 _ hgiven
    obtain ⟨-, t, ht', -, href⟩ := hi.inputValue hik
    obtain ⟨-, x, hx', -, hlit⟩ := hf.entry (.inl hfk)
    rw [Node.child?_eq ht'] at ht
    rw [Node.child?_eq hx'] at hx
    cases ht
    cases hx
    exact ⟨hlit, href⟩

theorem Leads.isProper (hr : r.WellTyped) (h : r.Leads enters a b) (ha : a.IsProper) :
    b.IsProper := by
  induction h with
  | refl c => exact ha
  | step h _ ih => exact ih (h.isProper hr ha)

theorem Step.innermost_eq (h : r.Step false a b) : a.type.innermost = b.type.innermost := by
  cases h with
  | nonNull hk hinner => exact Node.innermost_eq (.inr hk) hinner
  | single hk hinner => exact Node.innermost_eq (.inl hk) hinner
  | item hk hinner => exact Node.innermost_eq (.inl hk) hinner

/-- With no objects in between, the name of the type stays the same. -/
theorem Leads.innermost_eq (h : r.Leads enters a b) (he : enters = false) :
    a.type.innermost = b.type.innermost := by
  induction h with
  | refl c => rfl
  | step h _ ih =>
    obtain ⟨rfl, hrest⟩ := Bool.or_eq_false_iff.1 he
    rw [h.innermost_eq, ih hrest]

end Registry

namespace Usage

open Check (Includes)

variable {u : Usage} {enters : Bool} {a b : Comparison}

/-- The comparison as it is carried out. -/
def compare (u : Usage) (c : Comparison) : Check := u.matchesType (.node c.value) (.node c.type)

theorem includes_of_step (hr : u.registry.WellTyped) (h : u.registry.Step enters a b)
    (ha : a.IsProper) : (u.compare a).Includes (u.compare b) := by
  obtain ⟨hv, ht⟩ := ha
  unfold compare
  cases h with
  | nonNull hk hinner hnull =>
    rw [matchesType_nonNull hk (Node.content_eq_of_child? hinner), if_neg hnull]
    exact Includes.refl _
  | single hk hinner hnull hlist =>
    rw [matchesType_list hk (Node.content_eq_of_child? hinner), if_neg hnull, if_neg hlist]
    exact Includes.refl _
  | item hk hinner hlist hitem =>
    obtain ⟨hitems, -⟩ := hv.items hlist
    rw [matchesType_list hk (Node.content_eq_of_child? hinner), if_neg (by simp [hlist]),
      if_pos hlist, hitems, Check.each_map]
    exact (Check.includes_each hitem).trans (Check.includes_both _ _).2
  | @field v t base i f x s name hk hname hbase hkind hobject hnodup hknown hi hf hsame hs hx =>
    obtain ⟨n, hn, hnk, hfields, hitems, hparams⟩ := hr.exists_inputObject hbase hkind
    obtain ⟨hgivenItems, hgiven⟩ := hv.fields hobject
    have hnames : ∀ f ∈ v.childrenAt .fields, f.HasName :=
      fun f hf => ((hgiven f hf).1.entry (.inl (hgiven f hf).2)).1
    have hkeys := decides_checkKeys (T := True) (u := u) (v := v) hnames
      (fun i hi => ((hparams i hi).1.inputValue (hparams i hi).2).1) hitems
    obtain ⟨report, hreport⟩ := hkeys.total trivial
    have hclean : report.isClean := by
      rw [Report.isClean_iff, (hkeys.sound report hreport).1, hfields]
      exact ⟨hnodup, hknown⟩
    rw [matchesType_object hk (by simp [hobject]) hname hn hnk, if_pos hobject, hgivenItems,
      keyed_eq hnames, ok_bind, hreport, ok_bind, if_pos hclean, hitems, Check.each_map]
    rw [← hfields] at hi
    rw [← checkDeclared_given hv hobject (hparams i hi).1 (hparams i hi).2 hnodup hf hsame hs hx]
    exact Check.includes_each hi

/-- Comparisons to which another one leads are carried out with it. -/
theorem includes_of_leads (hr : u.registry.WellTyped) (h : u.registry.Leads enters a b)
    (ha : a.IsProper) : (u.compare a).Includes (u.compare b) := by
  induction h with
  | refl c => exact Includes.refl _
  | step h _ ih => exact (includes_of_step hr h ha).trans (ih (h.isProper hr ha))

end Usage

end GraphSchema
