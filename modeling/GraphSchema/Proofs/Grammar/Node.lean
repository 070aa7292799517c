import GraphSchema.Proofs.Grammar.Basic

/-!
# Trees as nodes

The nodes that trees of the grammar stand for. Different trees stand for different nodes.

## Main definitions

* `Grammar.Value.node`, `Grammar.Definition.node`, `Grammar.Document.node` and the like.

## Main statements

* `Grammar.Document.node_injective`: a tree is known by its node.
-/

namespace GraphSchema

namespace Grammar

open Parse (nameSlot optionalSlot)

/-! ## Nodes -/

/-- The node of a quoted literal. -/
def Quoted.node (s : Quoted) : Node :=
  .mk .stringValue .none [.datum .value (.text s.value), .datum .block (.bool s.block)]

/-- The node of a name with a literal whose node is given. -/
def entryNode (kind : Kind) (name : Text) (value : Node) : Node :=
  .mk kind .none [nameSlot name, .child .value value]

mutual

/-- The node of a literal. -/
def Value.node : Value → Node
  | .int digits => .mk .intValue .none [.datum .value (.text digits)]
  | .float digits => .mk .floatValue .none [.datum .value (.text digits)]
  | .string s => s.node
  | .boolean b => .mk .booleanValue .none [.datum .value (.bool b)]
  | .null => .mk .nullValue .none []
  | .enum name => .mk .enumValue .none [.datum .value (.text name)]
  | .list items => .mk .listValue .none [.children .values (itemNodes items)]
  | .object fields => .mk .objectValue .none [.children .fields (fieldNodes fields)]

/-- The nodes of literals in order. -/
def itemNodes : List Value → List Node
  | [] => []
  | v :: rest => v.node :: itemNodes rest

/-- The nodes of the fields of an object in order. -/
def fieldNodes : List (Text × Value) → List Node
  | [] => []
  | (name, v) :: rest => entryNode .objectField name v.node :: fieldNodes rest

end

/-- The node of an argument of a directive. -/
def argumentNode (e : Text × Value) : Node := entryNode .argument e.1 e.2.node

/-- The node of the name of a type. -/
def namedTypeNode (name : Text) : Node := .mk .namedType .none [nameSlot name]

/-- A reference to a type with its non-null wrapper, if it has one. -/
def wrapped (required : Bool) (n : Node) : Node :=
  if required then .mk .nonNullType .none [.child .type n] else n

/-- The node of a reference to a type. -/
def TypeReference.node : TypeReference → Node
  | named name required => wrapped required (namedTypeNode name)
  | list item required => wrapped required (.mk .listType .none [.child .type item.node])

/-- The node of a directive. -/
def Directive.node (d : Directive) : Node :=
  .mk .directive .none [nameSlot d.name, .children .arguments (d.arguments.map argumentNode)]

/-- The slot of a description. -/
def descriptionSlot (description : Option Quoted) : Slot :=
  optionalSlot .description (description.map Quoted.node)

/-- The slot of directives. -/
def directivesSlot (directives : List Directive) : Slot :=
  .children .directives (directives.map Directive.node)

/-- The node of an input value. -/
def InputValue.node (i : InputValue) : Node :=
  .mk .inputValueDefinition .none
    [descriptionSlot i.description, nameSlot i.name, .child .type i.type.node,
     optionalSlot .defaultValue (i.default.map Value.node), directivesSlot i.directives]

/-- The node of a field. -/
def Field.node (f : Field) : Node :=
  .mk .fieldDefinition .none
    [descriptionSlot f.description, nameSlot f.name,
     .children .arguments (f.arguments.map InputValue.node), .child .type f.type.node,
     directivesSlot f.directives]

/-- The node of a value of an enum. -/
def EnumValue.node (v : EnumValue) : Node :=
  .mk .enumValueDefinition .none
    [descriptionSlot v.description, nameSlot v.name, directivesSlot v.directives]

/-- The node of an operation. -/
def OperationType.node (o : OperationType) : Node :=
  .mk .operationTypeDefinition .none
    [.datum .operation (.text o.operation), .child .type (namedTypeNode o.type)]

/-- The node of the name of a place. -/
def locationNode (l : Location) : Node := .mk .directiveLocation .none [nameSlot l.val]

/-- The slots of the directives and the members of a type. -/
def Body.slots (directives : List Directive) : Body → List Slot
  | scalar => [directivesSlot directives]
  | object interfaces fields =>
    [.children .interfaces (interfaces.map namedTypeNode), directivesSlot directives,
     .children .fields (fields.map Field.node)]
  | interface fields => [directivesSlot directives, .children .fields (fields.map Field.node)]
  | union types => [directivesSlot directives, .children .types (types.map namedTypeNode)]
  | enum values => [directivesSlot directives, .children .values (values.map EnumValue.node)]
  | inputObject fields =>
    [directivesSlot directives, .children .fields (fields.map InputValue.node)]

/-- The slots of the schema, descriptions apart. -/
def schemaSlots (directives : List Directive) (operations : List OperationType) : List Slot :=
  [directivesSlot directives, .children .operationTypes (operations.map OperationType.node)]

/-- The node of a definition. -/
def Definition.node : Definition → Node
  | schema description directives operations _ =>
    .mk .schemaDefinition .none (descriptionSlot description :: schemaSlots directives operations)
  | type description name directives body =>
    .mk (.typeDefinition body.kind) .none
      (descriptionSlot description :: nameSlot name :: body.slots directives)
  | directive description name arguments locations _ =>
    .mk .directiveDefinition .none
      [descriptionSlot description, nameSlot name,
       .children .arguments (arguments.map InputValue.node),
       .children .locations (locations.map locationNode)]
  | schemaExtension directives operations _ =>
    .mk .schemaExtension .none (schemaSlots directives operations)
  | typeExtension name directives body _ =>
    .mk (.typeExtension body.kind) .none (nameSlot name :: body.slots directives)

/-- The node of a document. -/
def Document.node (d : Document) : Node :=
  .mk .document .none [.children .definitions (d.definitions.map Definition.node)]

/-! ## Trees are known by their nodes -/

@[simp] theorem datum_inj {r : Role} {a b : Atom} : Slot.datum r a = .datum r b ↔ a = b := by
  simp [Slot.datum]

@[simp] theorem child_inj {r : Role} {n m : Node} : Slot.child r n = .child r m ↔ n = m := by
  simp [Slot.child]

@[simp] theorem children_inj {r : Role} {ns ms : List Node} :
    Slot.children r ns = .children r ms ↔ ns = ms := by
  have h : Function.Injective Data.node := fun _ _ => Data.node.inj
  simp [Slot.children, Data.nodeList, h.list_map.eq_iff]

@[simp] theorem nameSlot_inj {a b : Text} : nameSlot a = nameSlot b ↔ a = b := by
  simp [nameSlot]

@[simp] theorem optionalSlot_inj {r : Role} {a b : Option Node} :
    optionalSlot r a = optionalSlot r b ↔ a = b := by
  cases a <;> cases b <;> simp [optionalSlot, Slot.datum, Slot.child]

theorem Quoted.node_injective : Function.Injective Quoted.node := by
  rintro ⟨v, b⟩ ⟨w, c⟩ h
  simpa [Quoted.node] using h

theorem entryNode_inj {k : Kind} {s t : Text} {n m : Node} :
    entryNode k s n = entryNode k t m ↔ s = t ∧ n = m := by
  simp [entryNode]

mutual

theorem Value.eq_of_node_eq : ∀ {v w : Value}, v.node = w.node → v = w
  | .int _, w, h => by cases w <;> simp_all [Value.node, Quoted.node]
  | .float _, w, h => by cases w <;> simp_all [Value.node, Quoted.node]
  | .string s, w, h => by
    cases w with
    | string t => exact congrArg _ (Quoted.node_injective (by simpa [Value.node] using h))
    | _ => simp [Value.node, Quoted.node] at h
  | .boolean _, w, h => by cases w <;> simp_all [Value.node, Quoted.node]
  | .null, w, h => by cases w <;> simp_all [Value.node, Quoted.node]
  | .enum _, w, h => by
    cases w with
    | enum name => exact congrArg _ (Subtype.ext (by simpa [Value.node] using h))
    | _ => simp [Value.node, Quoted.node] at h
  | .list vs, w, h => by
    cases w with
    | list ws => exact congrArg _ (eq_of_itemNodes_eq (by simpa [Value.node] using h))
    | _ => simp [Value.node, Quoted.node] at h
  | .object vs, w, h => by
    cases w with
    | object ws => exact congrArg _ (eq_of_fieldNodes_eq (by simpa [Value.node] using h))
    | _ => simp [Value.node, Quoted.node] at h

theorem eq_of_itemNodes_eq : ∀ {vs ws : List Value}, itemNodes vs = itemNodes ws → vs = ws
  | [], ws, h => by cases ws <;> simp_all [itemNodes]
  | v :: vs, ws, h => by
    cases ws with
    | nil => simp [itemNodes] at h
    | cons w ws =>
      simp only [itemNodes, List.cons.injEq] at h
      rw [Value.eq_of_node_eq h.1, eq_of_itemNodes_eq h.2]

theorem eq_of_fieldNodes_eq :
    ∀ {vs ws : List (Text × Value)}, fieldNodes vs = fieldNodes ws → vs = ws
  | [], ws, h => by
    cases ws with
    | nil => rfl
    | cons w ws => simp [fieldNodes] at h
  | (s, v) :: vs, ws, h => by
    cases ws with
    | nil => simp [fieldNodes] at h
    | cons w ws =>
      simp only [fieldNodes, List.cons.injEq, entryNode_inj] at h
      rw [← Prod.eta w, h.1.1, Value.eq_of_node_eq h.1.2, eq_of_fieldNodes_eq h.2]

end

theorem Value.node_injective : Function.Injective Value.node := fun _ _ => eq_of_node_eq

theorem argumentNode_injective : Function.Injective argumentNode := by
  rintro ⟨s, v⟩ ⟨t, w⟩ h
  obtain ⟨hs, hv⟩ := entryNode_inj.1 h
  rw [Prod.mk.injEq]
  exact ⟨hs, Value.node_injective hv⟩

theorem namedTypeNode_injective : Function.Injective namedTypeNode := by
  intro s t h
  simpa [namedTypeNode] using h

/-- A non-null wrapper shows, since it never stands directly in another one. -/
theorem wrapped_inj {r q : Bool} {n m : Node} (hn : n.kind ≠ .nonNullType)
    (hm : m.kind ≠ .nonNullType) : wrapped r n = wrapped q m ↔ r = q ∧ n = m := by
  have hw : ∀ a b : Node, b.kind ≠ .nonNullType → wrapped true a ≠ b := by
    rintro a b hb rfl
    exact hb rfl
  cases r <;> cases q
  · simp [wrapped]
  · simpa [wrapped] using (hw m n hn).symm
  · simpa [wrapped] using hw n m hm
  · simp [wrapped]

theorem TypeReference.node_injective : Function.Injective TypeReference.node := by
  have hnamed : ∀ s, (namedTypeNode s).kind ≠ .nonNullType := by simp [namedTypeNode, Node.kind]
  have hlist : ∀ slots, (Node.mk .listType .none slots).kind ≠ .nonNullType := by simp [Node.kind]
  intro t u h
  induction t generalizing u with
  | named s r =>
    cases u with
    | named s' r' =>
      obtain ⟨rfl, hs⟩ := (wrapped_inj (hnamed s) (hnamed s')).1 h
      rw [namedTypeNode_injective hs]
    | list u r' =>
      obtain ⟨-, hs⟩ := (wrapped_inj (hnamed s) (hlist _)).1 h
      simp [namedTypeNode] at hs
  | list t r ih =>
    cases u with
    | named s r' =>
      obtain ⟨-, hs⟩ := (wrapped_inj (hlist _) (hnamed s)).1 h
      simp [namedTypeNode] at hs
    | list u r' =>
      obtain ⟨rfl, hs⟩ := (wrapped_inj (hlist _) (hlist _)).1 h
      rw [ih (by simpa using hs)]

theorem Directive.node_injective : Function.Injective Directive.node := by
  rintro ⟨s, as⟩ ⟨t, bs⟩ h
  simpa [node, argumentNode_injective.list_map.eq_iff] using h

@[simp] theorem descriptionSlot_inj {a b : Option Quoted} :
    descriptionSlot a = descriptionSlot b ↔ a = b := by
  simp [descriptionSlot, (Option.map_injective Quoted.node_injective).eq_iff]

@[simp] theorem directivesSlot_inj {a b : List Directive} :
    directivesSlot a = directivesSlot b ↔ a = b := by
  simp [directivesSlot, Directive.node_injective.list_map.eq_iff]

theorem InputValue.node_injective : Function.Injective InputValue.node := by
  rintro ⟨a, s, t, v, ds⟩ ⟨b, s', t', v', ds'⟩ h
  simpa [node, TypeReference.node_injective.eq_iff,
    (Option.map_injective Value.node_injective).eq_iff] using h

theorem Field.node_injective : Function.Injective Field.node := by
  rintro ⟨a, s, as, t, ds⟩ ⟨b, s', as', t', ds'⟩ h
  simpa [node, TypeReference.node_injective.eq_iff, InputValue.node_injective.list_map.eq_iff]
    using h

theorem EnumValue.node_injective : Function.Injective EnumValue.node := by
  rintro ⟨a, s, ds⟩ ⟨b, s', ds'⟩ h
  simpa [node, Subtype.ext_iff] using h

theorem OperationType.node_injective : Function.Injective OperationType.node := by
  rintro ⟨o, t⟩ ⟨o', t'⟩ h
  simpa [node, Subtype.ext_iff, namedTypeNode_injective.eq_iff] using h

theorem locationNode_injective : Function.Injective locationNode := by
  intro l m h
  exact Subtype.ext (by simpa [locationNode] using h)

theorem Body.eq_of_slots_eq {ds es : List Directive} {a b : Body} (hk : a.kind = b.kind)
    (h : a.slots ds = b.slots es) : ds = es ∧ a = b := by
  cases a <;> cases b <;> simp_all [slots, kind, namedTypeNode_injective.list_map.eq_iff,
    Field.node_injective.list_map.eq_iff, EnumValue.node_injective.list_map.eq_iff,
    InputValue.node_injective.list_map.eq_iff]

theorem Definition.node_injective : Function.Injective Definition.node := by
  intro a b h
  cases a <;> cases b <;>
    simp_all [node, schemaSlots, OperationType.node_injective.list_map.eq_iff,
      InputValue.node_injective.list_map.eq_iff, locationNode_injective.list_map.eq_iff]
  · exact Body.eq_of_slots_eq h.1 h.2.2.2
  · exact Body.eq_of_slots_eq h.1 h.2.2

theorem Document.node_injective : Function.Injective Document.node := by
  rintro ⟨as, ha⟩ ⟨bs, hb⟩ h
  simpa [node, Definition.node_injective.list_map.eq_iff] using h

end Grammar

end GraphSchema
