import GraphSchema.Proofs.Grammar.Node
import GraphSchema.Proofs.Node.Slots
import GraphSchema.Proofs.Parser.Document

/-!
# Trees are well typed

The nodes that trees of the grammar stand for are well typed, and so is whatever the parser makes.

## Main statements

* `Grammar.Value.isLiteral_node`, `Grammar.TypeReference.isReference_node`: literals and references.
* `Grammar.Definition.wellTyped_node`: definitions.
* `Parser.Document.wellTyped_of_parse`: documents that were read.
-/

namespace GraphSchema

namespace Grammar

open Node Slot
open Parse (nameSlot optionalSlot)

variable {k : Kind} {r : Role}

/-! ## Slots -/

theorem fits_nameSlot {name : Text} (h : k ≠ .booleanValue) : (nameSlot name).Fits k Kind.named :=
  fits_text (by simp [Kind.holdsTruth, h])

theorem fits_optionalSlot {n : Option Node} (h : ∀ m ∈ n, k.admits r m.kind ∧ m.WellTyped) :
    (optionalSlot r n).Fits k (r, .child true) := by
  cases n with
  | none => exact fits_absent
  | some m => exact fits_child (h m rfl).1 (h m rfl).2

theorem Quoted.wellTyped_node (s : Quoted) : s.node.WellTyped :=
  wellTyped_mk (.cons (fits_text rfl) (.cons (fits_truth rfl) .nil))

theorem fits_descriptionSlot (s : Option Quoted) :
    (descriptionSlot s).Fits k (.description, .description) := by
  cases s with
  | none => exact fits_undescribed
  | some s => exact fits_description rfl s.wellTyped_node

/-- A slot of trees of one sort. -/
theorem fits_trees {α : Type} {node : α → Node} {xs : List α}
    (h : ∀ x, k.admits r (node x).kind ∧ (node x).WellTyped) :
    (children r (xs.map node)).Fits k (r, .children) := by
  refine fits_children fun n hn => ?_
  obtain ⟨x, -, rfl⟩ := List.mem_map.1 hn
  exact h x

/-! ## Literals -/

theorem wellTyped_entryNode {name : Text} {v : Node} (hk : k = .objectField ∨ k = .argument)
    (hv : v.IsLiteral) : (entryNode k name v).WellTyped := by
  rcases hk with rfl | rfl <;>
    exact wellTyped_mk (.cons (fits_nameSlot (by simp))
      (.cons (fits_child hv.kind hv.wellTyped) .nil))

mutual

theorem Value.isLiteral_node : ∀ v : Value, v.node.IsLiteral
  | .int _ => by
    rw [Value.node]
    exact ⟨wellTyped_mk (.cons (fits_text rfl) .nil), rfl⟩
  | .float _ => by
    rw [Value.node]
    exact ⟨wellTyped_mk (.cons (fits_text rfl) .nil), rfl⟩
  | .string s => by
    rw [Value.node]
    exact ⟨s.wellTyped_node, rfl⟩
  | .boolean _ => by
    rw [Value.node]
    exact ⟨wellTyped_mk (.cons (fits_truth rfl) .nil), rfl⟩
  | .null => by
    rw [Value.node]
    exact ⟨wellTyped_mk .nil, rfl⟩
  | .enum _ => by
    rw [Value.node]
    exact ⟨wellTyped_mk (.cons (fits_text rfl) .nil), rfl⟩
  | .list items => by
    rw [Value.node]
    refine ⟨wellTyped_mk (.cons (fits_children fun n hn => ?_) .nil), rfl⟩
    exact ⟨(isLiteral_itemNodes items n hn).kind, (isLiteral_itemNodes items n hn).wellTyped⟩
  | .object fields => by
    rw [Value.node]
    refine ⟨wellTyped_mk (.cons (fits_children fun n hn => ?_) .nil), rfl⟩
    obtain ⟨name, v, hv, rfl⟩ := isLiteral_fieldNodes fields n hn
    exact ⟨rfl, wellTyped_entryNode (.inl rfl) hv⟩

theorem isLiteral_itemNodes : ∀ vs : List Value, ∀ n ∈ itemNodes vs, n.IsLiteral
  | [], n, hn => by
    rw [itemNodes] at hn
    cases hn
  | v :: vs, n, hn => by
    rw [itemNodes, List.mem_cons] at hn
    rcases hn with rfl | hn
    · exact v.isLiteral_node
    · exact isLiteral_itemNodes vs n hn

theorem isLiteral_fieldNodes : ∀ vs : List (Text × Value), ∀ n ∈ fieldNodes vs,
    ∃ name v, v.IsLiteral ∧ n = entryNode .objectField name v
  | [], n, hn => by
    rw [fieldNodes] at hn
    cases hn
  | (s, v) :: vs, n, hn => by
    rw [fieldNodes, List.mem_cons] at hn
    rcases hn with rfl | hn
    · exact ⟨s, v.node, v.isLiteral_node, rfl⟩
    · exact isLiteral_fieldNodes vs n hn

end

/-! ## References and directives -/

theorem isReference_namedTypeNode (name : Text) : (namedTypeNode name).IsReference :=
  ⟨wellTyped_mk (.cons (fits_nameSlot (by simp)) .nil), rfl⟩

theorem isReference_wrapped {required : Bool} {n : Node} (h : n.IsReference) :
    (wrapped required n).IsReference := by
  cases required with
  | false => exact h
  | true => exact ⟨wellTyped_mk (.cons (fits_child h.kind h.wellTyped) .nil), rfl⟩

theorem TypeReference.isReference_node (t : TypeReference) : t.node.IsReference := by
  induction t with
  | named name required => exact isReference_wrapped (isReference_namedTypeNode name)
  | list item required ih =>
    exact isReference_wrapped ⟨wellTyped_mk (.cons (fits_child ih.kind ih.wellTyped) .nil), rfl⟩

theorem Directive.wellTyped_node (d : Directive) : d.node.WellTyped :=
  wellTyped_mk (.cons (fits_nameSlot (by simp)) (.cons
    (fits_trees fun e => ⟨rfl, wellTyped_entryNode (.inr rfl) e.2.isLiteral_node⟩) .nil))

theorem fits_directivesSlot (ds : List Directive) :
    (directivesSlot ds).Fits k (.directives, .children) :=
  fits_trees fun d => ⟨rfl, d.wellTyped_node⟩

/-! ## Members -/

theorem InputValue.wellTyped_node (i : InputValue) : i.node.WellTyped := by
  refine wellTyped_mk (.cons (fits_descriptionSlot _) (.cons (fits_nameSlot (by simp)) (.cons
    (fits_child i.type.isReference_node.kind i.type.isReference_node.wellTyped) (.cons
    (fits_optionalSlot fun m hm => ?_) (.cons (fits_directivesSlot _) .nil)))))
  obtain ⟨v, -, rfl⟩ := Option.map_eq_some_iff.1 hm
  exact ⟨v.isLiteral_node.kind, v.isLiteral_node.wellTyped⟩

theorem Field.wellTyped_node (f : Field) : f.node.WellTyped :=
  wellTyped_mk (.cons (fits_descriptionSlot _) (.cons (fits_nameSlot (by simp)) (.cons
    (fits_trees fun i => ⟨rfl, i.wellTyped_node⟩) (.cons
    (fits_child f.type.isReference_node.kind f.type.isReference_node.wellTyped) (.cons
    (fits_directivesSlot _) .nil)))))

theorem EnumValue.wellTyped_node (v : EnumValue) : v.node.WellTyped :=
  wellTyped_mk (.cons (fits_descriptionSlot _) (.cons (fits_nameSlot (by simp)) (.cons
    (fits_directivesSlot _) .nil)))

theorem OperationType.wellTyped_node (o : OperationType) : o.node.WellTyped :=
  wellTyped_mk (.cons (fits_text rfl) (.cons
    (fits_child rfl (isReference_namedTypeNode o.type).wellTyped) .nil))

theorem wellTyped_locationNode (l : Location) : (locationNode l).WellTyped :=
  wellTyped_mk (.cons (fits_nameSlot (by simp)) .nil)

/-! ## Definitions -/

/-- The slots of the members of a type fit, in definitions as in extensions. -/
theorem Body.forall₂_slots (ds : List Directive) (b : Body)
    (hk : k = .typeDefinition b.kind ∨ k = .typeExtension b.kind) :
    List.Forall₂ (Slot.Fits k) (b.slots ds) (Kind.holding (Kind.members b.kind)) := by
  have hnames : ∀ {r : Role} {names : List Text}, k.admits r .namedType = true →
      (children r (names.map namedTypeNode)).Fits k (r, .children) := fun h =>
    fits_trees fun name => ⟨h, (isReference_namedTypeNode name).wellTyped⟩
  cases b with
  | scalar => exact .cons (fits_directivesSlot ds) .nil
  | object interfaces fields =>
    refine .cons (hnames rfl) (.cons (fits_directivesSlot ds) (.cons (fits_trees fun f => ?_) .nil))
    exact ⟨by rcases hk with rfl | rfl <;> rfl, f.wellTyped_node⟩
  | interface fields =>
    refine .cons (fits_directivesSlot ds) (.cons (fits_trees fun f => ?_) .nil)
    exact ⟨by rcases hk with rfl | rfl <;> rfl, f.wellTyped_node⟩
  | union types => exact .cons (fits_directivesSlot ds) (.cons (hnames rfl) .nil)
  | enum values =>
    refine .cons (fits_directivesSlot ds) (.cons (fits_trees fun v => ?_) .nil)
    exact ⟨by rcases hk with rfl | rfl <;> rfl, v.wellTyped_node⟩
  | inputObject fields =>
    refine .cons (fits_directivesSlot ds) (.cons (fits_trees fun f => ?_) .nil)
    exact ⟨by rcases hk with rfl | rfl <;> rfl, f.wellTyped_node⟩

theorem forall₂_schemaSlots (ds : List Directive) (os : List OperationType) :
    List.Forall₂ (Slot.Fits k) (schemaSlots ds os)
      (Kind.holding [.directives, .operationTypes]) :=
  .cons (fits_directivesSlot ds) (.cons (fits_trees fun o => ⟨rfl, o.wellTyped_node⟩) .nil)

theorem Definition.wellTyped_node (d : Definition) : d.node.WellTyped := by
  cases d with
  | schema description directives operations h =>
    exact wellTyped_mk (.cons (fits_descriptionSlot _) (forall₂_schemaSlots _ _))
  | type description name directives body =>
    exact wellTyped_mk (.cons (fits_descriptionSlot _) (.cons (fits_nameSlot (by simp))
      (body.forall₂_slots directives (.inl rfl))))
  | directive description name arguments locations h =>
    exact wellTyped_mk (.cons (fits_descriptionSlot _) (.cons (fits_nameSlot (by simp)) (.cons
      (fits_trees fun i => ⟨rfl, i.wellTyped_node⟩) (.cons
      (fits_trees fun l => ⟨rfl, wellTyped_locationNode l⟩) .nil))))
  | schemaExtension directives operations h =>
    exact wellTyped_mk (forall₂_schemaSlots _ _)
  | typeExtension name directives body h =>
    exact wellTyped_mk (.cons (fits_nameSlot (by simp)) (body.forall₂_slots directives (.inr rfl)))

theorem Definition.isDeclaration_kind (d : Definition) : d.node.kind.isDeclaration := by
  cases d <;> rfl

theorem Document.wellTyped_node (d : Document) : d.node.WellTyped :=
  wellTyped_mk (.cons (fits_trees fun e => ⟨e.isDeclaration_kind, e.wellTyped_node⟩) .nil)

end Grammar

/-- Documents that were read are well typed. -/
theorem Parser.Document.wellTyped_of_parse {source : Text} {name : Option Text} {located : Bool}
    {n : Node} (h : (ofText source name located).parse = .ok n) :
    n.WellTyped ∧ n.kind = .document := by
  obtain ⟨ts, -, g, -, hplain⟩ := exists_flattens_of_parse name located h
  constructor
  · refine Node.WellTyped.of_plain ?_
    rw [hplain]
    exact g.wellTyped_node
  · rw [← Node.kind_plain, hplain]
    rfl

/-- The declarations of a document that was read. -/
theorem Parser.Document.isDeclaration_of_parse {source : Text} {name : Option Text} {located : Bool}
    {n : Node} (h : (ofText source name located).parse = .ok n) :
    ∀ c ∈ n.childrenAt .definitions, c.WellTyped ∧ c.kind.isDeclaration := by
  obtain ⟨hwell, hk⟩ := wellTyped_of_parse h
  have hr : (.definitions, .children) ∈ n.kind.layout := by
    rw [hk]
    exact List.mem_singleton_self _
  intro c hc
  obtain ⟨hadmits, hc⟩ := (hwell.children hr).2 c hc
  rw [hk] at hadmits
  exact ⟨hc, hadmits⟩

end GraphSchema
