import GraphSchema.Proofs.Node.Plain

/-!
# Well-typed nodes

A node is well typed if it has the attributes of its kind, each of which holds what it should hold,
and if the nodes below it are well typed as well. Attributes of well-typed nodes can be asked for
without failing.

## Main definitions

* `Kind.admits`: the kinds of nodes that an attribute holds.
* `Shape.Fits`: what an attribute of a shape may hold.
* `Node.WellTyped`: well-typed nodes.

## Main statements

* `Node.WellTyped.get_eq`: what is asked for is there.
* `Node.WellTyped.hasName`, `Node.WellTyped.child`, `Node.WellTyped.children`: names and children.
-/

namespace GraphSchema

namespace Kind

/-- A literal of a particular kind. -/
def isLiteral (k : Kind) : Bool := k.isValue && k != .bare .value

/-- A reference to a type of a particular kind. -/
def isReference (k : Kind) : Bool := k.isType && k != .bare .type

/-- A definition or extension of a particular kind. -/
def isDeclaration : Kind → Bool
  | schemaDefinition | schemaExtension | directiveDefinition => true
  | typeDefinition _ | typeExtension _ => true
  | _ => false

/-- The kinds of nodes that an attribute of nodes of a kind holds. -/
def admits (k : Kind) : Role → Kind → Bool
  | .description, c => c = .stringValue
  | .value, c => c.isLiteral
  | .defaultValue, c => c.isLiteral
  | .type, c => if k = .operationTypeDefinition then c = .namedType else c.isReference
  | .fields, c =>
    if k = .objectValue then c = .objectField
    else if k = .typeDefinition .inputObject ∨ k = .typeExtension .inputObject then
      c = .inputValueDefinition
    else c = .fieldDefinition
  | .values, c => if k = .listValue then c.isLiteral else c = .enumValueDefinition
  | .types, c => c = .namedType
  | .interfaces, c => c = .namedType
  | .directives, c => c = .directive
  | .arguments, c => if k = .directive then c = .argument else c = .inputValueDefinition
  | .locations, c => c = .directiveLocation
  | .definitions, c => c.isDeclaration
  | .operationTypes, c => c = .operationTypeDefinition
  | _, _ => false

/-- What an attribute of nodes of a kind holds that holds no node: a truth value, or a text. -/
def holdsTruth (k : Kind) (r : Role) : Bool := k = .booleanValue || r = .block

theorem mem_layout_typeDefinition {k : TypeKind} {r : Role} (h : r ∈ members k) :
    (r, .children) ∈ (typeDefinition k).layout := by
  cases k <;> simp_all [layout, holding, members]

theorem mem_layout_typeExtension {k : TypeKind} {r : Role} (h : r ∈ members k) :
    (r, .children) ∈ (typeExtension k).layout := by
  cases k <;> simp_all [layout, holding, members]

/-- Definitions and extensions have members of the same kinds. -/
theorem admits_typeExtension {k : TypeKind} {r : Role} (h : r ∈ members k) (c : Kind) :
    (typeExtension k).admits r c = (typeDefinition k).admits r c := by
  cases k <;> cases r <;> simp_all [members, admits]

end Kind

/-- What an attribute of a given shape may hold in nodes of a kind. -/
def Shape.Fits (k : Kind) (r : Role) : Shape → Data → Prop
  | datum _, d => if k.holdsTruth r then ∃ b, d = .bool b else ∃ t, d = .text t
  | description, d => d = .null ∨ ∃ c, d = .node c ∧ k.admits r c.kind
  | child optional, d => (optional ∧ d = .null) ∨ ∃ c, d = .node c ∧ k.admits r c.kind
  | children, d => ∃ cs, d = .nodeList cs ∧ ∀ c ∈ cs, k.admits r c.kind

namespace Node

/-- The node has the attributes of its kind, and they hold what they should. -/
structure Shaped (n : Node) : Prop where
  roles : n.slots.map Slot.role = n.kind.layout.map Prod.fst
  fits : ∀ r s, (r, s) ∈ n.kind.layout → s.Fits n.kind r (n.content r)

/-- The node and all nodes below it have the attributes of their kinds. -/
inductive WellTyped : Node → Prop
  | intro {n : Node} (shaped : n.Shaped) (below : ∀ r, ∀ c ∈ n.childrenAt r, c.WellTyped) :
    n.WellTyped

namespace WellTyped

variable {n : Node} {r : Role}

theorem shaped (h : n.WellTyped) : n.Shaped := by
  cases h with
  | intro shaped _ => exact shaped

theorem of_mem (h : n.WellTyped) {c : Node} (hc : c ∈ n.childrenAt r) : c.WellTyped := by
  cases h with
  | intro _ below => exact below r c hc

end WellTyped

/-- The name of a node that has a text for it. -/
def nameText (n : Node) : Text := n.name.text?.getD []

/-- The node has a text for a name. -/
def HasName (n : Node) : Prop := n.get .name = .ok (.text n.nameText)

namespace HasName

variable {n : Node}

theorem name_eq (h : n.HasName) : n.name = .text n.nameText := by
  rw [Node.name, h]
  rfl

theorem key_eq (h : n.HasName) : n.key = .ok (.text n.nameText) := by
  rw [key, h]
  rfl

end HasName

theorem content?_isSome_of_mem {n : Node} {r : Role} (h : r ∈ n.slots.map Slot.role) :
    (n.content? r).isSome := by
  obtain ⟨s, hs, rfl⟩ := List.mem_map.1 h
  rw [content?, Option.isSome_map, slot?, List.find?_isSome]
  exact ⟨s, hs, by simp⟩

theorem content_eq_null_of_not_mem {n : Node} {r : Role} (h : r ∉ n.slots.map Slot.role) :
    n.content r = .null := by
  have hnone : n.slots.find? (fun s => s.role = r) = none := by
    rw [List.find?_eq_none]
    intro s hs hr
    exact h (List.mem_map.2 ⟨s, hs, by simpa using hr⟩)
  rw [content, content?, slot?, hnone]
  rfl

/-- What is asked for is there. -/
theorem get_eq_content {n : Node} {r : Role} (h : r ∈ n.slots.map Slot.role) :
    n.get r = .ok (n.content r) := by
  obtain ⟨d, hd⟩ := Option.isSome_iff_exists.1 (content?_isSome_of_mem h)
  rw [get, content, hd]
  rfl

namespace Shaped

variable {n : Node} {r : Role} {s : Shape}

theorem mem_roles (h : n.Shaped) (hr : (r, s) ∈ n.kind.layout) : r ∈ n.slots.map Slot.role := by
  rw [h.roles]
  exact List.mem_map.2 ⟨(r, s), hr, rfl⟩

theorem get_eq (h : n.Shaped) (hr : (r, s) ∈ n.kind.layout) : n.get r = .ok (n.content r) :=
  get_eq_content (h.mem_roles hr)

/-- What stands below a node is what its attributes should hold. -/
theorem admits_of_mem (h : n.Shaped) {c : Node} (hc : c ∈ n.childrenAt r) :
    r ∈ n.kind.layout.map Prod.fst ∧ n.kind.admits r c.kind := by
  have hr : r ∈ n.kind.layout.map Prod.fst := by
    refine Decidable.byContradiction fun hr => ?_
    rw [childrenAt, content_eq_null_of_not_mem (h.roles ▸ hr)] at hc
    cases hc
  refine ⟨hr, ?_⟩
  obtain ⟨s, hs⟩ : ∃ s, (r, s) ∈ n.kind.layout := by simpa using hr
  have hfits := h.fits r s hs
  have hatom : ∀ a, n.content r = .atom a → n.kind.admits r c.kind := by
    intro a ha
    rw [childrenAt, ha] at hc
    cases hc
  have hnode : (∃ d, n.content r = .node d ∧ n.kind.admits r d.kind) →
      n.kind.admits r c.kind := by
    intro hnode
    obtain ⟨d, hd, hadmits⟩ := hnode
    rw [childrenAt, hd] at hc
    rwa [List.mem_singleton.1 hc]
  cases s with
  | datum b =>
    simp only [Shape.Fits] at hfits
    split at hfits
    · obtain ⟨x, hx⟩ := hfits
      exact hatom _ hx
    · obtain ⟨t, ht⟩ := hfits
      exact hatom _ ht
  | description => exact hfits.elim (hatom _) hnode
  | child b => exact hfits.elim (fun h => hatom _ h.2) hnode
  | children =>
    obtain ⟨cs, hcs, hk⟩ := hfits
    rw [childrenAt, hcs, Data.nodes_nodeList] at hc
    exact hk c hc

end Shaped

namespace WellTyped

variable {n : Node} {r : Role} {s : Shape}

theorem get_eq (h : n.WellTyped) (hr : (r, s) ∈ n.kind.layout) : n.get r = .ok (n.content r) :=
  h.shaped.get_eq hr

/-- An attribute that holds a text. -/
theorem text (h : n.WellTyped) {b : Option Bool} (hr : (r, .datum b) ∈ n.kind.layout)
    (ht : n.kind.holdsTruth r = false) : ∃ t, n.content r = .text t := by
  simpa [Shape.Fits, ht] using h.shaped.fits r _ hr

/-- Nodes that have a name have a text for it. -/
theorem hasName (h : n.WellTyped) (hr : Kind.named ∈ n.kind.layout) : n.HasName := by
  have htruth : n.kind.holdsTruth .name = false := by
    cases hk : n.kind with
    | booleanValue => rw [hk] at hr; simp [Kind.layout, Kind.named] at hr
    | _ => rfl
  obtain ⟨t, ht⟩ := h.text hr htruth
  have hget := h.get_eq hr
  rw [ht] at hget
  have hname : n.name = .text t := by rw [Node.name, hget]; rfl
  rw [HasName, hget, nameText, hname]
  rfl

/-- Nodes that hold the same under their names have the same name. -/
theorem nameText_eq {m : Node} (hn : n.WellTyped) (hm : m.WellTyped)
    (hnr : Kind.named ∈ n.kind.layout) (hmr : Kind.named ∈ m.kind.layout)
    (h : n.content .name = m.content .name) : n.nameText = m.nameText := by
  rw [nameText, nameText, Node.name, Node.name, hn.get_eq hnr, hm.get_eq hmr, h]

/-- An attribute that holds a single node. -/
theorem child (h : n.WellTyped) (hr : (r, .child false) ∈ n.kind.layout) :
    ∃ c, n.content r = .node c ∧ n.kind.admits r c.kind ∧ c.WellTyped := by
  obtain ⟨c, hc, hk⟩ : ∃ c, n.content r = .node c ∧ n.kind.admits r c.kind := by
    simpa [Shape.Fits] using h.shaped.fits r _ hr
  exact ⟨c, hc, hk, h.of_mem (by rw [childrenAt, hc]; exact List.mem_singleton_self c)⟩

/-- An attribute that holds nodes. -/
theorem children (h : n.WellTyped) (hr : (r, .children) ∈ n.kind.layout) :
    n.content r = .nodeList (n.childrenAt r) ∧
      ∀ c ∈ n.childrenAt r, n.kind.admits r c.kind ∧ c.WellTyped := by
  obtain ⟨cs, hcs, hk⟩ := h.shaped.fits r _ hr
  have heq : n.childrenAt r = cs := by rw [childrenAt, hcs, Data.nodes_nodeList]
  rw [heq]
  exact ⟨hcs, fun c hc => ⟨hk c hc, h.of_mem (heq ▸ hc)⟩⟩

/-- The items of an attribute that holds nodes. -/
theorem items (h : n.WellTyped) (hr : (r, .children) ∈ n.kind.layout) :
    (n.content r).items = (n.childrenAt r).map Data.node := by
  rw [(h.children hr).1]
  rfl

/-- An attribute that holds nodes of one kind. -/
theorem members (h : n.WellTyped) (hr : (r, .children) ∈ n.kind.layout) {k : Kind}
    (hk : ∀ c, n.kind.admits r c → c = k) :
    (n.content r).items = (n.childrenAt r).map Data.node ∧
      ∀ c ∈ n.childrenAt r, c.WellTyped ∧ c.kind = k := by
  refine ⟨h.items hr, fun c hc => ?_⟩
  obtain ⟨hadmits, hwell⟩ := (h.children hr).2 c hc
  exact ⟨hwell, hk _ hadmits⟩

/-- The members of one kind of a definition or extension of a type. -/
theorem typeMembers (h : n.WellTyped) {k : TypeKind}
    (hk : n.kind = .typeDefinition k ∨ n.kind = .typeExtension k) (hr : r ∈ Kind.members k)
    {m : Kind} (hm : ∀ c, (Kind.typeDefinition k).admits r c → c = m) :
    (n.content r).items = (n.childrenAt r).map Data.node ∧
      ∀ c ∈ n.childrenAt r, c.WellTyped ∧ c.kind = m := by
  rcases hk with hk | hk
  · refine h.members (hk ▸ Kind.mem_layout_typeDefinition hr) ?_
    rwa [hk]
  · refine h.members (hk ▸ Kind.mem_layout_typeExtension hr) fun c hc => hm c ?_
    rwa [hk, Kind.admits_typeExtension hr] at hc

/-- The values of an enumeration have names. -/
theorem enumValues (h : n.WellTyped) (hk : n.kind = .typeDefinition .enum) :
    (n.content .values).items = (n.childrenAt .values).map Data.node ∧
      ∀ e ∈ n.childrenAt .values, e.HasName := by
  obtain ⟨hitems, hvalues⟩ := h.typeMembers (r := .values) (m := .enumValueDefinition) (.inl hk)
    (by simp [Kind.members]) (by simp [Kind.admits])
  refine ⟨hitems, fun e he => (hvalues e he).1.hasName ?_⟩
  rw [(hvalues e he).2]
  simp [Kind.layout]

end WellTyped

/-! ## Literals and references -/

/-- A well-typed literal. -/
structure IsLiteral (v : Node) : Prop where
  wellTyped : v.WellTyped
  kind : v.kind.isLiteral

/-- A well-typed reference to a type. -/
structure IsReference (t : Node) : Prop where
  wellTyped : t.WellTyped
  kind : t.kind.isReference

theorem child?_eq {n c : Node} {r : Role} (h : n.content r = .node c) : n.child? r = some c := by
  rw [child?, h]
  rfl

theorem content_eq_of_child? {n c : Node} {r : Role} (h : n.child? r = some c) :
    n.content r = .node c := by
  rw [child?] at h
  cases hd : n.content r <;> rw [hd] at h <;> cases h
  rfl

/-- A reference to a type is a wrapper or a name. -/
theorem IsReference.kind_cases {t : Node} (h : t.IsReference) :
    t.kind = .nonNullType ∨ t.kind = .listType ∨ t.kind = .namedType := by
  obtain ⟨htype, hbare⟩ : t.kind.isType ∧ t.kind ≠ .bare .type := by
    simpa [Kind.isReference] using h.kind
  unfold Kind.isType at htype
  split at htype <;> simp_all

/-- What a list or a non-null type is made of. -/
theorem IsReference.inner {t : Node} (h : t.IsReference)
    (hk : t.kind = .nonNullType ∨ t.kind = .listType) :
    ∃ inner, t.content .type = .node inner ∧ inner.IsReference := by
  have hr : (.type, .child false) ∈ t.kind.layout := by
    rcases hk with hk | hk <;> rw [hk] <;> exact List.mem_singleton_self _
  obtain ⟨inner, hinner, hadmits, hwell⟩ := h.wellTyped.child hr
  refine ⟨inner, hinner, hwell, ?_⟩
  rcases hk with hk | hk <;> rw [hk] at hadmits <;> exact hadmits

theorem IsReference.of_child? {t inner : Node} (h : t.IsReference)
    (hk : t.kind = .nonNullType ∨ t.kind = .listType) (hinner : t.child? .type = some inner) :
    inner.IsReference := by
  obtain ⟨i, hi, href⟩ := h.inner hk
  rw [child?_eq hi] at hinner
  cases hinner
  exact href

theorem IsReference.hasName {t : Node} (h : t.IsReference) (hk : t.kind = .namedType) :
    t.HasName :=
  h.wellTyped.hasName (by rw [hk]; exact List.mem_singleton_self _)

/-- The items of a list. -/
theorem IsLiteral.items {v : Node} (h : v.IsLiteral) (hk : v.kind = .listValue) :
    (v.content .values).items = (v.childrenAt .values).map Data.node ∧
      ∀ c ∈ v.childrenAt .values, c.IsLiteral := by
  have hr : (.values, .children) ∈ v.kind.layout := by rw [hk]; exact List.mem_singleton_self _
  refine ⟨h.wellTyped.items hr, fun c hc => ?_⟩
  obtain ⟨hadmits, hwell⟩ := (h.wellTyped.children hr).2 c hc
  rw [hk] at hadmits
  exact ⟨hwell, hadmits⟩

/-- The fields of an object. -/
theorem IsLiteral.fields {v : Node} (h : v.IsLiteral) (hk : v.kind = .objectValue) :
    (v.content .fields).items = (v.childrenAt .fields).map Data.node ∧
      ∀ f ∈ v.childrenAt .fields, f.WellTyped ∧ f.kind = .objectField :=
  h.wellTyped.members (by rw [hk]; exact List.mem_singleton_self _) (by simp [hk, Kind.admits])

/-- What has a name and a literal, such as a field of an object. -/
theorem WellTyped.entry {f : Node} (h : f.WellTyped)
    (hk : f.kind = .objectField ∨ f.kind = .argument) :
    f.HasName ∧ ∃ x, f.content .value = .node x ∧ f.get .value = .ok (.node x) ∧ x.IsLiteral := by
  have hlayout : f.kind.layout = [Kind.named, (.value, .child false)] := by
    rcases hk with hk | hk <;> rw [hk] <;> rfl
  have hr : (.value, .child false) ∈ f.kind.layout := by simp [hlayout]
  obtain ⟨x, hx, hadmits, hwell⟩ := h.child hr
  have hget := h.get_eq hr
  rw [hx] at hget
  refine ⟨h.hasName (by simp [hlayout]), x, hx, hget, hwell, ?_⟩
  rcases hk with hk | hk <;> rw [hk] at hadmits <;> exact hadmits

/-- An argument that is declared, or a field of a type of objects. -/
theorem WellTyped.inputValue {i : Node} (h : i.WellTyped) (hk : i.kind = .inputValueDefinition) :
    i.HasName ∧
      ∃ t, i.content .type = .node t ∧ i.get .type = .ok (.node t) ∧ t.IsReference := by
  have hr : (.type, .child false) ∈ i.kind.layout := by rw [hk]; simp [Kind.layout]
  obtain ⟨t, ht, hadmits, hwell⟩ := h.child hr
  have hget := h.get_eq hr
  rw [ht] at hget
  rw [hk] at hadmits
  exact ⟨h.hasName (by rw [hk]; simp [Kind.layout]), t, ht, hget, hwell, hadmits⟩

/-- A directive and its arguments. -/
theorem WellTyped.directive {d : Node} (h : d.WellTyped) (hk : d.kind = .directive) :
    d.HasName ∧ d.get .arguments = .ok (d.content .arguments) ∧
      (d.content .arguments).items = (d.childrenAt .arguments).map Data.node ∧
      ∀ a ∈ d.childrenAt .arguments, a.WellTyped ∧ a.kind = .argument := by
  have hr : (.arguments, .children) ∈ d.kind.layout := by
    rw [hk]
    simp [Kind.layout, Kind.holding]
  exact ⟨h.hasName (by rw [hk]; simp [Kind.layout]), h.get_eq hr,
    h.members hr (by simp [hk, Kind.admits])⟩

/-- The arguments and places that a directive declares. -/
theorem WellTyped.directiveDefinition {d : Node} (h : d.WellTyped)
    (hk : d.kind = .directiveDefinition) :
    ((d.content .arguments).items = (d.childrenAt .arguments).map Data.node ∧
      ∀ i ∈ d.childrenAt .arguments, i.WellTyped ∧ i.kind = .inputValueDefinition) ∧
    (d.content .locations).items = (d.childrenAt .locations).map Data.node ∧
      ∀ l ∈ d.childrenAt .locations, l.WellTyped ∧ l.kind = .directiveLocation := by
  have hr : ∀ r ∈ [Role.arguments, .locations], (r, .children) ∈ d.kind.layout := by
    rw [hk]
    decide
  exact ⟨h.members (hr _ (by simp)) (by simp [hk, Kind.admits]),
    h.members (hr _ (by simp)) (by simp [Kind.admits])⟩

end Node

end GraphSchema
