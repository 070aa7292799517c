import GraphSchema.Check.Schema
import GraphSchema.Proofs.Node.WellTyped

/-!
# Uses of directives

All uses of directives in a schema, wherever they stand in the trees of its declarations. They are
found by going through the trees as a whole, without looking at what their attributes mean.

## Main definitions

* `Use`: a directive that is applied to an element.
* `Use.place?`: the place at which it is used.
* `Node.uses`: all uses in a node and below.
* `Registry.uses`: all uses in what a registry holds.

## Main statements

* `Node.uses_eq_nil`: there are no uses in literals, references and directives.
* `Node.uses_eq_append`: uses in a node are those of its own and those below its elements.
-/

namespace GraphSchema

/-- A directive that is applied to an element, which stands below a node of some kind. -/
structure Use where
  above : Kind
  element : Node
  directive : Node

/-- The place at which a directive is used. -/
def Use.place? (u : Use) : Option DirectivePlace :=
  match u.element.kind with
  | .schemaDefinition | .schemaExtension => some .schema
  | .typeDefinition k | .typeExtension k => some (.type k)
  | .fieldDefinition => some .field
  | .enumValueDefinition => some .enumValue
  | .inputValueDefinition =>
    if u.above = .typeDefinition .inputObject ∨ u.above = .typeExtension .inputObject then
      some .inputField
    else some .argument
  | _ => none

/-- The uses in a node and in all nodes below it; `above` is the kind of the node above. -/
def Node.uses (above : Kind) (n : Node) : List Use :=
  (n.childrenAt .directives).map (fun d => ⟨above, n, d⟩) ++
    Role.all.flatMap fun r => (n.childrenAt r).attach.flatMap fun c => c.1.uses n.kind
termination_by n.size
decreasing_by exact size_lt_of_mem_childrenAt c.2

namespace Registry

/-- The declarations that a registry holds, declarations of directives apart. -/
def elements (r : Registry) : List Node :=
  (TypeKind.all.flatMap fun k => (r.extensions k).values.flatten) ++ r.types.values ++
    r.scalars.values ++ r.schema.toList ++ r.schemaExtensions

/-- The uses of directives in declarations of directives, that is, on their arguments. -/
def parameterUses (r : Registry) : List Use :=
  r.directives.values.flatMap (Node.uses .document)

/-- The uses of directives in all that a registry holds. -/
def uses (r : Registry) : List Use := r.elements.flatMap (Node.uses .document) ++ r.parameterUses

end Registry

/-! ## Where uses stand -/

/-- The attribute of nodes of a kind that holds the elements below them to which directives can be
applied. -/
def Kind.elements? : Kind → Option Role
  | document => some .definitions
  | typeDefinition .object | typeExtension .object => some .fields
  | typeDefinition .interface | typeExtension .interface => some .fields
  | typeDefinition .inputObject | typeExtension .inputObject => some .fields
  | typeDefinition .enum | typeExtension .enum => some .values
  | fieldDefinition => some .arguments
  | directiveDefinition => some .arguments
  | _ => none

/-- Directives cannot be applied to nodes of the kind, nor to what stands below them. -/
def Kind.isInert (k : Kind) : Bool :=
  k.isLiteral || k.isReference || k = .objectField || k = .argument || k = .directive
    || k = .directiveLocation || k = .operationTypeDefinition

/-- What does not hold elements holds inert nodes. -/
theorem Kind.isInert_of_admits {k c : Kind} {r : Role} (hr : r ∈ k.layout.map Prod.fst)
    (hk : k.elements? ≠ some r) (h : k.admits r c) : c.isInert := by
  have hliteral : c.isLiteral = true → c.isInert = true := fun h => by simp [isInert, h]
  have hreference : c.isReference = true → c.isInert = true := fun h => by simp [isInert, h]
  cases r with
  | value | defaultValue => exact hliteral h
  | type =>
    simp only [admits] at h
    split at h
    · rw [of_decide_eq_true h]
      rfl
    · exact hreference h
  | description | types | interfaces | directives | locations | operationTypes =>
    rw [of_decide_eq_true h]
    rfl
  | fields | values | arguments | definitions =>
    cases k with
    | typeDefinition k => cases k <;> simp_all [layout, members, holding, named, elements?]
    | typeExtension k => cases k <;> simp_all [layout, members, holding, named, elements?]
    | objectValue | listValue | directive => simp_all [layout, holding, named, admits, isInert]
    | _ => simp_all [layout, holding, named, elements?]
  | _ => cases h

theorem Kind.elements?_of_isInert {k : Kind} (h : k.isInert) : k.elements? = none := by
  cases k with
  | typeDefinition k => cases h
  | typeExtension k => cases h
  | _ => first | rfl | cases h

theorem Kind.not_mem_layout_of_isInert {k : Kind} (h : k.isInert) :
    .directives ∉ k.layout.map Prod.fst := by
  cases k with
  | bare g => exact List.not_mem_nil
  | typeDefinition k => cases h
  | typeExtension k => cases h
  | _ => first | decide | cases h

namespace Node

variable {n : Node} {above : Kind}

theorem uses_eq (above : Kind) (n : Node) :
    n.uses above = (n.childrenAt .directives).map (fun d => ⟨above, n, d⟩) ++
      Role.all.flatMap fun r => (n.childrenAt r).flatMap (uses n.kind) := by
  have hattach : ∀ r, ((n.childrenAt r).attach.flatMap fun c => c.1.uses n.kind) =
      (n.childrenAt r).flatMap (uses n.kind) := by
    intro r
    rw [← List.flatMap_map Subtype.val (uses n.kind), List.attach_map_subtype_val]
  rw [uses]
  simp only [hattach]

/-- There are no uses in inert nodes. -/
theorem uses_eq_nil (h : n.WellTyped) (hk : n.kind.isInert) : n.uses above = [] := by
  induction h generalizing above with
  | @intro n shaped _ ih =>
    have hdirectives : n.childrenAt .directives = [] := by
      refine List.eq_nil_iff_forall_not_mem.2 fun d hd => ?_
      exact Kind.not_mem_layout_of_isInert hk (shaped.admits_of_mem hd).1
    rw [uses_eq, hdirectives, List.map_nil, List.nil_append, List.flatMap_eq_nil_iff]
    intro r _
    rw [List.flatMap_eq_nil_iff]
    intro c hc
    obtain ⟨hr, hadmits⟩ := shaped.admits_of_mem hc
    refine ih r c hc (Kind.isInert_of_admits hr ?_ hadmits)
    rw [Kind.elements?_of_isInert hk]
    simp

/-- The elements below a node to which directives can be applied. -/
def elements (n : Node) : List Node :=
  match n.kind.elements? with
  | none => []
  | some r => n.childrenAt r

/-- Uses in a node are those of its own and those in its elements. -/
theorem uses_eq_append (h : n.WellTyped) (above : Kind) :
    n.uses above = (n.childrenAt .directives).map (fun d => ⟨above, n, d⟩) ++
      n.elements.flatMap (uses n.kind) := by
  have hother : ∀ r, n.kind.elements? ≠ some r → (n.childrenAt r).flatMap (uses n.kind) = [] := by
    intro r hr
    rw [List.flatMap_eq_nil_iff]
    intro c hc
    obtain ⟨hmem, hadmits⟩ := h.shaped.admits_of_mem hc
    exact uses_eq_nil (h.of_mem hc) (Kind.isInert_of_admits hmem hr hadmits)
  rw [uses_eq]
  refine congrArg _ ?_
  unfold elements
  cases hk : n.kind.elements? with
  | none =>
    rw [List.flatMap_eq_nil_iff.2 fun r _ => hother r (by simp [hk])]
    rfl
  | some r =>
    have hr : ∀ q, q ≠ r → (n.childrenAt q).flatMap (uses n.kind) = [] := by
      intro q hq
      refine hother q ?_
      rw [hk]
      simpa using Ne.symm hq
    cases r <;> simp [Role.all, hr]

end Node

end GraphSchema
