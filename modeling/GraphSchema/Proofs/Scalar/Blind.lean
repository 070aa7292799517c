import GraphSchema.Proofs.Node.Unplaced
import GraphSchema.Proofs.Scalar.Rejection

/-!
# Literals with other metadata

The scalars of this library read literals by their kind and by what they hold, and so do its
callbacks. They take the same literals, and turn others down with the same message, wherever these
stand. Callbacks from outside could look at the places of literals; those that do not are blind.

## Main definitions

* `Blind`: a function of literals that takes no notice of some change of metadata.
* `Scalar.Blind`, `Callback.Blind`, `Wiring.Blind`: scalars, callbacks and wirings of this sort.

## Main statements

* `Blind.cases`: what comes of a literal with other metadata.
* `Scalar.blind_of_mem_builtins`, `Scalar.blind_ofPattern`: scalars.
* `Callback.blind_accepting`, `Callback.blind_ranging`: callbacks.
* `Wiring.Blind.scalar?`, `Wiring.Blind.coercer?`: what is looked up in a wiring.
-/

namespace GraphSchema

variable {f : Metadata → Metadata}

/-- A function of literals fails on a literal with other metadata just if it fails on the literal,
and with the same failure. -/
def Blind (f : Metadata → Metadata) (read : Data → Except Failure Data) : Prop :=
  ∀ v : Node, v.IsLiteral → ∀ e, read (.node (v.relabel f)) = .error e ↔ read (.node v) = .error e

/-- A literal is read with both metadata, or fails with both in the same way. -/
theorem Blind.cases {read : Data → Except Failure Data} (h : Blind f read) {v : Node}
    (hv : v.IsLiteral) :
    (∃ x y, read (.node v) = .ok x ∧ read (.node (v.relabel f)) = .ok y) ∨
      ∃ e, read (.node v) = .error e ∧ read (.node (v.relabel f)) = .error e := by
  cases hx : read (.node v) with
  | error e => exact .inr ⟨e, rfl, (h v hv e).2 hx⟩
  | ok x =>
    cases hy : read (.node (v.relabel f)) with
    | error e =>
      rw [(h v hv e).1 hy] at hx
      cases hx
    | ok y => exact .inl ⟨x, y, rfl, rfl⟩

/-- What a literal holds is no node. -/
theorem Node.IsLiteral.exists_atom {v : Node} (h : v.IsLiteral) :
    ∃ a, v.content .value = .atom a := by
  by_cases hr : .value ∈ v.kind.layout.map Prod.fst
  · obtain ⟨s, hs⟩ : ∃ s, (.value, s) ∈ v.kind.layout := by simpa using hr
    obtain ⟨b, rfl⟩ : ∃ b, s = .datum b := by
      have hk := h.kind
      rcases v with ⟨k, i, slots⟩
      cases k <;> simp_all [Node.kind, Kind.layout, Kind.holding, Kind.isLiteral, Kind.isValue]
    have hfits := h.wellTyped.shaped.fits _ _ hs
    simp only [Shape.Fits] at hfits
    split at hfits
    · obtain ⟨x, hx⟩ := hfits
      exact ⟨_, hx⟩
    · obtain ⟨t, ht⟩ := hfits
      exact ⟨_, ht⟩
  · exact ⟨.null, content_eq_null_of_not_mem (h.wellTyped.shaped.roles ▸ hr)⟩

theorem Node.IsLiteral.content_value_relabel {v : Node} (h : v.IsLiteral) :
    (v.relabel f).content .value = v.content .value := by
  obtain ⟨a, ha⟩ := h.exists_atom
  rw [content_relabel, ha, Data.relabel_atom]

namespace Scalar

/-- The scalar reads literals with other metadata as it reads literals. -/
def Blind (f : Metadata → Metadata) (s : Scalar) : Prop := GraphSchema.Blind f s.read

theorem blind_ofKinds (kinds : List Kind) (read : Data → Except Failure Data) :
    GraphSchema.Blind f (ofKinds kinds read) := by
  intro v hv e
  rw [ofKinds_node, ofKinds_node, Node.kind_relabel, hv.content_value_relabel]

theorem blind_native {name description : Text} {kinds : List Kind}
    {read : Data → Except Failure Data} : (native name description kinds read).Blind f :=
  blind_ofKinds _ _

theorem blind_of_mem_builtins {s : Scalar} (h : s ∈ builtins) : s.Blind f := by
  simp only [builtins, List.mem_cons, List.not_mem_nil, or_false] at h
  rcases h with rfl | rfl | rfl | rfl | rfl <;> exact blind_native

theorem blind_uuid : uuid.Blind f := blind_native

theorem blind_ofPattern (name written : Text) (matching : Pattern.Sensitivity)
    (description : Option Text) : (ofPattern name written matching description).Blind f :=
  blind_ofKinds _ _

/-- Turning failures into failures to parse a literal. -/
theorem Blind.parseLiteral {s : Scalar} (h : s.Blind f) :
    GraphSchema.Blind f s.parseLiteral := by
  intro v hv e
  unfold Scalar.parseLiteral
  obtain ⟨x, y, hx, hy⟩ | ⟨e, hx, hy⟩ := GraphSchema.Blind.cases h hv
  · rw [hx, hy]
    simp
  · rw [hx, hy]

end Scalar

namespace Callback

/-- The callback takes literals with other metadata as it takes literals. -/
def Blind (f : Metadata → Metadata) (c : Callback) : Prop := GraphSchema.Blind f c.run

theorem blind_accepting (label : Text) : (accepting label).Blind f :=
  fun _ _ _ => iff_of_false nofun nofun

theorem blind_refusing (label : Text) (e : Failure) : (refusing label e).Blind f :=
  fun _ _ _ => Iff.rfl

theorem blind_ranging (label : Text) (least most : Int) : (ranging label least most).Blind f := by
  intro v hv e
  have hcontent := hv.content_value_relabel (f := f)
  rcases v with ⟨k, i, slots⟩
  rw [Node.relabel_mk] at hcontent ⊢
  cases k with
  | intValue => simp only [ranging, hcontent, Node.kind]
  | _ => exact Iff.rfl

end Callback

namespace Wiring

/-- The scalars and the coercers of the wiring take literals with other metadata as they take
literals. -/
structure Blind (f : Metadata → Metadata) (w : Wiring) : Prop where
  scalars : ∀ s ∈ w.scalars.values, s.Blind f
  coercers : ∀ entry ∈ w.coercers, ∀ c ∈ entry.2.values, c.Blind f

variable {w : Wiring}

theorem blind_empty : empty.Blind f := ⟨nofun, nofun⟩

theorem Blind.scalar? (h : w.Blind f) {name : Text} {s : Scalar} (hs : w.scalar? name = some s) :
    s.Blind f :=
  (mem_of_scalar? hs).elim (h.scalars s) Scalar.blind_of_mem_builtins

theorem Blind.coercer? (h : w.Blind f) {directive argument : Text} {c : Callback}
    (hc : w.coercer? directive argument = some c) : c.Blind f := by
  obtain ⟨e, he, hmem⟩ := mem_of_coercer? hc
  exact h.coercers e he c hmem

end Wiring

end GraphSchema
