import GraphSchema.Proofs.Check.Report
import GraphSchema.Proofs.Check.Use
import GraphSchema.Proofs.Node.Builder
import GraphSchema.Proofs.Registry.WellTyped

/-!
# What a check goes through

The check of a schema is the check of each use of a directive in declarations of types and in the
schema itself, one after the other, and of the declarations of directives at last.

## Main definitions

* `Schema.checkUse`: the check of a single use.
* `Schema.visited`: the uses that are checked, in order.
* `Schema.sections`: the kinds of declarations in the order in which they are checked.

## Main statements

* `Schema.checkType_eq`: the uses in a declaration of a type.
* `Schema.check_eq`: the uses in a schema.
* `Schema.visited_perm`: these are the uses in all that a registry holds, declarations of
  directives apart.
* `Schema.declarations_eq`: the order of the check, kind by kind.
-/

namespace GraphSchema

/-! ## Uses that can be checked -/

/-- Whatever has directives stands at a place at which they can be used. -/
theorem Use.place?_isSome {u : Use} (h : .directives ∈ u.element.kind.layout.map Prod.fst) :
    u.place?.isSome := by
  unfold Use.place?
  cases hk : u.element.kind with
  | inputValueDefinition =>
    simp only
    split <;> rfl
  | bare g => rw [hk] at h; cases h
  | _ => first | rfl | (rw [hk] at h; simp [Kind.layout, Kind.holding, Kind.named] at h)

namespace Node

/-- The directives that are applied to a node. -/
theorem directives_eq {n : Node} (hn : n.WellTyped)
    (hr : (.directives, .children) ∈ n.kind.layout) :
    n.directives = .ok ((n.childrenAt .directives).map Data.node) := by
  rw [directives, hn.get_eq hr, ok_bind, hn.items hr]
  rfl

theorem WellTyped.directives {n d : Node} (hn : n.WellTyped) (hd : d ∈ n.childrenAt .directives) :
    d.WellTyped ∧ d.kind = .directive := by
  obtain ⟨-, hadmits⟩ := hn.shaped.admits_of_mem hd
  exact ⟨hn.of_mem hd, by simpa [Kind.admits] using hadmits⟩

/-- What is used are directives, and they are used at places. -/
theorem of_mem_uses {n : Node} {above : Kind} (hn : n.WellTyped) {u : Use} (hu : u ∈ n.uses above) :
    (u.directive.WellTyped ∧ u.directive.kind = .directive) ∧ u.place?.isSome := by
  induction hn generalizing above with
  | @intro n shaped below ih =>
    rw [uses_eq, List.mem_append] at hu
    rcases hu with hu | hu
    · obtain ⟨d, hd, rfl⟩ := List.mem_map.1 hu
      have hn : n.WellTyped := .intro shaped below
      exact ⟨hn.directives hd, Use.place?_isSome (shaped.admits_of_mem hd).1⟩
    · obtain ⟨r, -, hu⟩ := List.mem_flatMap.1 hu
      obtain ⟨c, hc, hu⟩ := List.mem_flatMap.1 hu
      exact ih r c hc hu

end Node

namespace Schema

open Node

/-- The check of a single use. Directives of the schema and of its extensions are all taken for
directives of the schema. -/
def checkUse (s : Schema) (u : Use) : Check :=
  match u.place? with
  | none => Check.clean
  | some .schema =>
    s.checkDirective DirectivePlace.schema.label (s.registry.schema.getD undefined)
      Problem.schemaElement (.node u.directive)
  | some place =>
    s.checkDirective place.label u.element (.text u.element.nameText) (.node u.directive)

/-- The element that problems with a use are about, and its name. -/
def subject (s : Schema) (u : Use) : Node × Data :=
  match u.place? with
  | some .schema => (s.registry.schema.getD undefined, Problem.schemaElement)
  | _ => (u.element, .text u.element.nameText)

/-- What is checked, in order, declarations of directives apart. -/
def declarations (s : Schema) : List Node :=
  order.flatMap s.extensions ++ order.flatMap s.definitions ++
    (s.registry.schema.toList ++ s.registry.schemaExtensions)

/-- The uses of directives that are checked, in order. -/
def visited (s : Schema) : List Use := s.declarations.flatMap (Node.uses .document)

variable {s : Schema} {n : Node} {above : Kind} {place : DirectivePlace}

/-! ## Elements -/

theorem checkUse_eq {u : Use} (h : u.place? = some place) (hne : place ≠ .schema) :
    s.checkUse u =
      s.checkDirective place.label u.element (.text u.element.nameText) (.node u.directive) := by
  rw [checkUse, h]
  cases place <;> first | rfl | exact absurd rfl hne

/-- The directives of an element itself. -/
theorem checkElement_eq (hn : n.WellTyped) (hname : Kind.named ∈ n.kind.layout)
    (hr : (.directives, .children) ∈ n.kind.layout)
    (hplace : ∀ d, (Use.mk above n d).place? = some place) (hne : place ≠ .schema) :
    s.checkElement place (.node n) =
      Check.each ((n.childrenAt .directives).map fun d => ⟨above, n, d⟩) s.checkUse := by
  have hget : n.get .name = .ok (.text n.nameText) := hn.hasName hname
  simp only [checkElement, hget, directives_eq hn hr, ok_bind, checkDirectives, Check.each_map,
    checkUse_eq (hplace _) hne]

/-- An element below which there are no others. -/
theorem checkElement_uses (hn : n.WellTyped) (hname : Kind.named ∈ n.kind.layout)
    (hr : (.directives, .children) ∈ n.kind.layout)
    (hplace : ∀ d, (Use.mk above n d).place? = some place) (hne : place ≠ .schema)
    (hk : n.kind.elements? = none) :
    s.checkElement place (.node n) = Check.each (n.uses above) s.checkUse := by
  rw [checkElement_eq hn hname hr hplace hne, uses_eq_append hn, Node.elements, hk,
    List.flatMap_nil, List.append_nil]

/-- An input value; the kind of node above says whether it is a field or an argument. -/
theorem checkInputValue_eq (hn : n.WellTyped) (hk : n.kind = .inputValueDefinition)
    (hplace : ∀ d, (Use.mk above n d).place? = some place) (hne : place ≠ .schema) :
    s.checkElement place (.node n) = Check.each (n.uses above) s.checkUse :=
  checkElement_uses hn (by rw [hk]; simp [Kind.layout]) (by rw [hk]; simp [Kind.layout]) hplace hne
    (by rw [hk]; rfl)

/-- Elements that stand in an attribute of a node. -/
theorem each_elements {r : Role} {check : Data → Check} (hr : n.kind.elements? = some r)
    (hitems : (n.content r).items = (n.childrenAt r).map Data.node)
    (h : ∀ c ∈ n.childrenAt r, check (.node c) = Check.each (c.uses n.kind) s.checkUse) :
    Check.each (n.content r).items check =
      Check.each (n.elements.flatMap (Node.uses n.kind)) s.checkUse := by
  rw [Node.elements, hr, hitems, Check.each_map, Check.each_flatMap]
  exact Check.each_congr h

/-- A field and its arguments. -/
theorem checkField_eq (hn : n.WellTyped) (hk : n.kind = .fieldDefinition) :
    s.checkField (.node n) = Check.each (n.uses above) s.checkUse := by
  have hr : ∀ r ∈ [Role.arguments, .directives], (r, .children) ∈ n.kind.layout := by
    rw [hk]
    decide
  obtain ⟨hitems, hargs⟩ := hn.members (hr .arguments (by simp)) (k := .inputValueDefinition)
    (by simp [hk, Kind.admits])
  have hself : s.checkElement .field (.node n) =
      Check.each ((n.childrenAt .directives).map fun d => ⟨above, n, d⟩) s.checkUse :=
    checkElement_eq hn (by rw [hk]; simp [Kind.layout]) (hr .directives (by simp))
      (fun d => by simp [Use.place?, hk]) (by simp)
  have hbelow : Check.each (n.content .arguments).items (s.checkElement .argument) =
      Check.each (n.elements.flatMap (Node.uses n.kind)) s.checkUse := by
    refine each_elements (by rw [hk]; rfl) hitems fun i hi => ?_
    refine checkInputValue_eq (hargs i hi).1 (hargs i hi).2 (fun d => ?_) (by simp)
    simp [Use.place?, (hargs i hi).2, hk]
  have hget : (Data.node n).get .arguments = .ok (n.content .arguments) :=
    hn.get_eq (hr .arguments (by simp))
  rw [checkField, hself, hget, ok_bind, hbelow, uses_eq_append hn, Check.each_append]

/-! ## Types -/

/-- The members of a definition or extension of a type. -/
theorem checkMembers_eq {k : TypeKind} (hn : n.WellTyped)
    (hk : n.kind = .typeDefinition k ∨ n.kind = .typeExtension k) :
    s.checkMembers k n = Check.each (n.elements.flatMap (Node.uses n.kind)) s.checkUse := by
  have hfields : (k = .object ∨ k = .interface) →
      Check.each (n.content .fields).items s.checkField =
        Check.each (n.elements.flatMap (Node.uses n.kind)) s.checkUse := by
    intro hkind
    obtain ⟨hitems, hf⟩ := hn.typeMembers (r := .fields) (m := .fieldDefinition) hk
      (by rcases hkind with rfl | rfl <;> simp [Kind.members])
      (by rcases hkind with rfl | rfl <;> simp [Kind.admits])
    refine each_elements ?_ hitems fun f hmem => checkField_eq (hf f hmem).1 (hf f hmem).2
    rcases hk with hk | hk <;> rcases hkind with rfl | rfl <;> rw [hk] <;> rfl
  cases k with
  | object => exact hfields (.inl rfl)
  | interface => exact hfields (.inr rfl)
  | enum =>
    obtain ⟨hitems, hv⟩ := hn.typeMembers (r := .values) (m := .enumValueDefinition) hk
      (by simp [Kind.members]) (by simp [Kind.admits])
    refine each_elements (by rcases hk with hk | hk <;> rw [hk] <;> rfl) hitems fun v hmem => ?_
    obtain ⟨hwell, hvk⟩ := hv v hmem
    refine checkElement_uses hwell ?_ ?_ (fun d => ?_) (by simp) (by rw [hvk]; rfl)
    · rw [hvk]
      simp [Kind.layout]
    · rw [hvk]
      simp [Kind.layout]
    · simp [Use.place?, hvk]
  | inputObject =>
    obtain ⟨hitems, hf⟩ := hn.typeMembers (r := .fields) (m := .inputValueDefinition) hk
      (by simp [Kind.members]) (by simp [Kind.admits])
    refine each_elements (by rcases hk with hk | hk <;> rw [hk] <;> rfl) hitems fun f hmem => ?_
    refine checkInputValue_eq (hf f hmem).1 (hf f hmem).2 (fun d => ?_) (by simp)
    rcases hk with hk | hk <;> simp [Use.place?, (hf f hmem).2, hk]
  | scalar | union =>
    have helements : n.elements = [] := by
      rw [Node.elements]
      rcases hk with hk | hk <;> rw [hk] <;> rfl
    rw [helements]
    rfl

/-- A definition or extension of a type, with its members. -/
theorem checkType_eq {k : TypeKind} (hn : n.WellTyped)
    (hk : n.kind = .typeDefinition k ∨ n.kind = .typeExtension k) :
    s.checkType k n = Check.each (n.uses above) s.checkUse := by
  have hself : s.checkElement (.type k) (.node n) =
      Check.each ((n.childrenAt .directives).map fun d => ⟨above, n, d⟩) s.checkUse := by
    refine checkElement_eq hn ?_ ?_ (fun d => ?_) (by simp)
    · rcases hk with hk | hk <;> rw [hk] <;> simp [Kind.layout]
    · rcases hk with hk | hk <;> rw [hk] <;> cases k <;>
        simp [Kind.layout, Kind.holding, Kind.members]
    · rcases hk with hk | hk <;> simp [Use.place?, hk]
  rw [checkType, hself, checkMembers_eq hn hk, uses_eq_append hn, Check.each_append]

/-! ## Schemas -/

/-- The directives of the schema and of its extensions. -/
theorem checkSchema_eq (hr : s.registry.WellTyped) :
    s.checkSchema = Check.each ((s.registry.schema.toList ++ s.registry.schemaExtensions).flatMap
      (Node.uses .document)) s.checkUse := by
  generalize hns : s.registry.schema.toList ++ s.registry.schemaExtensions = ns
  have hkind : ∀ n ∈ ns,
      n.WellTyped ∧ (n.kind = .schemaDefinition ∨ n.kind = .schemaExtension) := by
    intro n hn
    rw [← hns, List.mem_append, Option.mem_toList] at hn
    rcases hn with hn | hn
    · exact ⟨(hr.schema n hn).1, .inl (hr.schema n hn).2⟩
    · exact ⟨(hr.schemaExtensions n hn).1, .inr (hr.schemaExtensions n hn).2⟩
  have huses : ∀ n ∈ ns, n.uses .document =
      (n.childrenAt .directives).map fun d => ⟨.document, n, d⟩ := by
    intro n hn
    have helements : n.elements = [] := by
      rw [Node.elements]
      rcases (hkind n hn).2 with hk | hk <;> rw [hk] <;> rfl
    rw [uses_eq_append (hkind n hn).1, helements, List.flatMap_nil, List.append_nil]
  have hdirectives : ns.mapM directives =
      .ok (ns.map fun n => (n.uses .document).map fun u => .node u.directive) := by
    refine mapM_eq_ok fun n hn => ?_
    have hlayout : (.directives, .children) ∈ n.kind.layout := by
      rcases (hkind n hn).2 with hk | hk <;> rw [hk] <;> decide
    rw [directives_eq (hkind n hn).1 hlayout, huses n hn, List.map_map]
    rfl
  have hflatten : (ns.map fun n => (n.uses .document).map fun u => Data.node u.directive).flatten =
      (ns.flatMap (Node.uses .document)).map fun u => .node u.directive := by
    rw [List.map_flatMap, List.flatMap_def]
  simp only [checkSchema, hns, hdirectives, ok_bind, hflatten]
  rw [checkDirectives, Check.each_map]
  refine Check.each_congr fun u hu => ?_
  obtain ⟨n, hn, hu⟩ := List.mem_flatMap.1 hu
  rw [huses n hn] at hu
  obtain ⟨d, -, rfl⟩ := List.mem_map.1 hu
  have hplace : (Use.mk .document n d).place? = some .schema := by
    rcases (hkind n hn).2 with hk | hk <;> simp [Use.place?, hk]
  rw [checkUse, hplace]

/-- Declarations of types of each kind. -/
theorem each_checkType {ns : TypeKind → List Node} (ks : List TypeKind)
    (hns : ∀ k, ∀ n ∈ ns k,
      n.WellTyped ∧ (n.kind = .typeDefinition k ∨ n.kind = .typeExtension k)) :
    (Check.each ks fun k => Check.each (ns k) (s.checkType k)) =
      Check.each ((ks.flatMap ns).flatMap (Node.uses .document)) s.checkUse := by
  rw [Check.each_flatMap, Check.each_flatMap]
  refine Check.each_congr fun k _ => Check.each_congr fun n hn => ?_
  exact checkType_eq (hns k n hn).1 (hns k n hn).2

theorem of_mem_extensions (hr : s.registry.WellTyped) {k : TypeKind} (hn : n ∈ s.extensions k) :
    n.WellTyped ∧ n.kind = .typeExtension k := by
  obtain ⟨ns, hns, hn⟩ := List.mem_flatMap.1 hn
  obtain ⟨e, he, rfl⟩ := List.mem_map.1 hns
  have hentry := hr.extensions k e he n hn
  exact ⟨hentry.wellTyped, hentry.kind⟩

theorem of_mem_definitions (hr : s.registry.WellTyped) {k : TypeKind} (hn : n ∈ s.definitions k) :
    n.WellTyped ∧ n.kind = .typeDefinition k := by
  unfold definitions at hn
  split at hn
  · obtain ⟨e, he, rfl⟩ := List.mem_map.1 hn
    have hentry := hr.scalars e he
    subst k
    exact ⟨hentry.wellTyped, hentry.kind⟩
  · obtain ⟨hn, hk⟩ := List.mem_filter.1 hn
    obtain ⟨e, he, rfl⟩ := List.mem_map.1 hn
    obtain ⟨l, -, hentry⟩ := hr.types e he
    exact ⟨hentry.wellTyped, of_decide_eq_true hk⟩

/-- The check of a schema is that of its uses of directives, and of its declarations of
directives. -/
theorem check_eq (hr : s.registry.WellTyped) :
    s.check = Check.both (Check.each s.visited s.checkUse) s.checkDefinitions := by
  have hextensions := each_checkType (s := s) order fun k n hn =>
    (of_mem_extensions hr hn).imp_right .inr
  have hdefinitions := each_checkType (s := s) order fun k n hn =>
    (of_mem_definitions hr hn).imp_right .inl
  rw [check, hextensions, hdefinitions, checkSchema_eq hr, ← Check.both_assoc, ← Check.both_assoc,
    ← Check.each_append, ← Check.each_append, ← List.flatMap_append, ← List.flatMap_append]
  rfl

/-! ## All uses -/

/-- Definitions of types of all kinds, put in order by their kinds. -/
theorem perm_flatMap_filter {ks : List TypeKind} {ns : List Node} (hks : ks.Nodup)
    (hns : ∀ n ∈ ns, ∃ k ∈ ks, n.kind = .typeDefinition k) :
    (ks.flatMap fun k => ns.filter fun n => n.kind.isA (.typeDefinition k)).Perm ns := by
  induction ks generalizing ns with
  | nil =>
    have hnil : ns = [] := by
      refine List.eq_nil_iff_forall_not_mem.2 fun n hn => ?_
      obtain ⟨k, hk, -⟩ := hns n hn
      cases hk
    rw [hnil]
    exact List.Perm.nil
  | cons k ks ih =>
    obtain ⟨hk, hks⟩ := List.nodup_cons.1 hks
    have hrest : (ks.flatMap fun l => ns.filter fun n => n.kind.isA (.typeDefinition l)) =
        ks.flatMap fun l => (ns.filter fun n => !n.kind.isA (.typeDefinition k)).filter fun n =>
          n.kind.isA (.typeDefinition l) := by
      refine List.flatMap_congr fun l hl => ?_
      rw [List.filter_filter]
      refine List.filter_congr fun n _ => ?_
      have hlk : l ≠ k := fun h => hk (h ▸ hl)
      by_cases hn : n.kind = .typeDefinition l <;> simp [Kind.isA, hn, hlk]
    rw [List.flatMap_cons, hrest]
    refine (List.Perm.append_left _ (ih hks fun n hn => ?_)).trans (List.filter_append_perm _ _)
    obtain ⟨hn, hother⟩ := List.mem_filter.1 hn
    obtain ⟨l, hl, hkind⟩ := hns n hn
    refine ⟨l, (List.mem_cons.1 hl).resolve_left ?_, hkind⟩
    intro heq
    subst heq
    simp [Kind.isA, hkind] at hother

theorem definitions_perm (hr : s.registry.WellTyped) :
    (order.flatMap s.definitions).Perm (s.registry.types.values ++ s.registry.scalars.values) := by
  have horder : order.Perm ([.object, .interface, .union, .enum, .inputObject] ++ [.scalar]) := by
    decide
  refine (horder.flatMap_right s.definitions).trans ?_
  rw [List.flatMap_append, List.flatMap_singleton]
  refine List.Perm.append_right _ ?_
  have hdefinitions :
      List.flatMap s.definitions [.object, .interface, .union, .enum, .inputObject] =
        List.flatMap
          (fun k => s.registry.types.values.filter fun n => n.kind.isA (.typeDefinition k))
          [.object, .interface, .union, .enum, .inputObject] := by
    refine List.flatMap_congr fun k hk => ?_
    have hne : k ≠ .scalar := by
      intro h
      subst h
      simp at hk
    rw [definitions, if_neg hne, Registry.typesOf]
  rw [hdefinitions]
  refine perm_flatMap_filter (by decide) fun n hn => ?_
  obtain ⟨e, he, rfl⟩ := List.mem_map.1 hn
  obtain ⟨k, hk, hentry⟩ := hr.types e he
  refine ⟨k, ?_, hentry.kind⟩
  cases k <;> first | exact absurd rfl hk | decide

/-- What is checked is all that the registry holds, declarations of directives apart. -/
theorem declarations_perm (hr : s.registry.WellTyped) :
    s.declarations.Perm s.registry.elements := by
  have hextensions : (order.flatMap s.extensions).Perm
      (TypeKind.all.flatMap fun k => (s.registry.extensions k).values.flatten) := by
    have horder : order.Perm TypeKind.all := by decide
    have hflatten : s.extensions = fun k => (s.registry.extensions k).values.flatten :=
      funext fun k => List.flatMap_id
    rw [hflatten]
    exact horder.flatMap_right _
  rw [declarations, Registry.elements, List.append_assoc _ s.registry.schema.toList,
    List.append_assoc _ s.registry.types.values]
  exact (hextensions.append (definitions_perm hr)).append_right _

/-! ## The order of declarations -/

/-- The kinds of declarations in the order in which they are checked. -/
def sections : List Kind :=
  [.typeExtension .object, .typeExtension .interface, .typeExtension .union, .typeExtension .enum,
   .typeExtension .scalar, .typeExtension .inputObject, .typeDefinition .object,
   .typeDefinition .interface, .typeDefinition .union, .typeDefinition .enum,
   .typeDefinition .scalar, .typeDefinition .inputObject, .schemaDefinition, .schemaExtension]

/-- Of declarations of one kind those of a kind. -/
theorem filter_kind {ns : List Node} {l : Kind} (h : ∀ n ∈ ns, n.kind = l) (k : Kind) :
    ns.filter (fun n => n.kind = k) = if l = k then ns else [] := by
  split
  · rename_i hlk
    exact List.filter_eq_self.2 fun n hn => decide_eq_true ((h n hn).trans hlk)
  · rename_i hlk
    refine List.filter_eq_nil_iff.2 fun n hn => ?_
    rw [h n hn, decide_eq_true_eq]
    exact hlk

/-- What a registry holds of one kind, table by table. -/
theorem filter_elements (hr : s.registry.WellTyped) (k : Kind) :
    s.registry.elements.filter (fun n => n.kind = k) =
      (TypeKind.all.flatMap fun l => if .typeExtension l = k then s.extensions l else []) ++
        s.registry.types.values.filter (fun n => n.kind = k) ++
        (if .typeDefinition .scalar = k then s.registry.scalars.values else []) ++
        (if .schemaDefinition = k then s.registry.schema.toList else []) ++
        (if .schemaExtension = k then s.registry.schemaExtensions else []) := by
  have hextensions : ∀ l, (s.registry.extensions l).values.flatten = s.extensions l :=
    fun l => List.flatMap_id.symm
  have hscalars : ∀ n ∈ s.registry.scalars.values, n.kind = .typeDefinition .scalar := by
    intro n hn
    obtain ⟨e, he, rfl⟩ := List.mem_map.1 hn
    exact (hr.scalars e he).kind
  rw [Registry.elements, List.filter_append, List.filter_append, List.filter_append,
    List.filter_append, List.filter_flatMap, filter_kind hscalars,
    filter_kind fun n hn => (hr.schema n (Option.mem_toList.1 hn)).2,
    filter_kind fun n hn => (hr.schemaExtensions n hn).2]
  simp only [hextensions, filter_kind fun n hn => (of_mem_extensions hr hn).2]

/-- Kind by kind, declarations are checked in the order in which the registry holds them. -/
theorem declarations_eq (hr : s.registry.WellTyped) :
    s.declarations =
      sections.flatMap fun k => s.registry.elements.filter fun n => n.kind = k := by
  -- Scalars have a table of their own.
  have htypes : ∀ k : Kind, (∀ l, l ≠ .scalar → .typeDefinition l ≠ k) →
      s.registry.types.values.filter (fun n => n.kind = k) = [] := by
    intro k hk
    refine List.filter_eq_nil_iff.2 fun n hn => ?_
    obtain ⟨e, he, rfl⟩ := List.mem_map.1 hn
    obtain ⟨l, hl, hentry⟩ := hr.types e he
    rw [hentry.kind, decide_eq_true_eq]
    exact hk l hl
  have hextensions : ∀ k, s.registry.elements.filter (fun n => n.kind = .typeExtension k) =
      s.extensions k := by
    intro k
    rw [filter_elements hr, htypes (.typeExtension k) (by simp)]
    cases k <;> simp [TypeKind.all]
  have hdefinitions : ∀ k, s.registry.elements.filter (fun n => n.kind = .typeDefinition k) =
      s.definitions k := by
    intro k
    rw [filter_elements hr, definitions]
    by_cases hk : k = .scalar
    · subst hk
      rw [htypes _ fun l hl => by simpa using hl]
      simp
    · simp [hk, Ne.symm hk, Registry.typesOf, Kind.isA]
  have hschema : s.registry.elements.filter (fun n => n.kind = .schemaDefinition) =
      s.registry.schema.toList := by
    rw [filter_elements hr, htypes .schemaDefinition (by simp)]
    simp
  have hrest : s.registry.elements.filter (fun n => n.kind = .schemaExtension) =
      s.registry.schemaExtensions := by
    rw [filter_elements hr, htypes .schemaExtension (by simp)]
    simp
  have hsections : sections = order.map .typeExtension ++ order.map .typeDefinition ++
      [.schemaDefinition, .schemaExtension] := rfl
  rw [hsections, List.flatMap_append, List.flatMap_append, List.flatMap_map, List.flatMap_map]
  simp only [hextensions, hdefinitions, hschema, hrest, List.flatMap_cons, List.flatMap_nil,
    List.append_nil, declarations]

theorem visited_perm (hr : s.registry.WellTyped) :
    s.visited.Perm (s.registry.elements.flatMap (Node.uses .document)) :=
  (declarations_perm hr).flatMap_right _

theorem of_mem_visited (hr : s.registry.WellTyped) {u : Use} (hu : u ∈ s.visited) :
    (u.directive.WellTyped ∧ u.directive.kind = .directive) ∧ u.place?.isSome := by
  obtain ⟨n, hn, hu⟩ := List.mem_flatMap.1 hu
  refine of_mem_uses ?_ hu
  simp only [declarations, List.mem_append, List.mem_flatMap, Option.mem_toList] at hn
  rcases hn with (⟨k, -, hn⟩ | ⟨k, -, hn⟩) | hn | hn
  · exact (of_mem_extensions hr hn).1
  · exact (of_mem_definitions hr hn).1
  · exact (hr.schema n hn).1
  · exact (hr.schemaExtensions n hn).1

/-- The check of a use that is gone through is the check of its directive, at its place. -/
theorem checkUse_of_mem_visited (hr : s.registry.WellTyped) {u : Use} (hu : u ∈ s.visited) :
    ∃ place, u.place? = some place ∧ s.checkUse u =
      s.checkDirective place.label (s.subject u).1 (s.subject u).2 (.node u.directive) := by
  obtain ⟨place, hplace⟩ := Option.isSome_iff_exists.1 (of_mem_visited hr hu).2
  refine ⟨place, hplace, ?_⟩
  rw [checkUse, subject, hplace]
  cases place <;> rfl

end Schema

end GraphSchema
