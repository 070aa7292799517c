import GraphSchema.Proofs.Check.Definition
import GraphSchema.Proofs.Check.Mirror.Directive

/-!
# Schemas with other metadata

The check of a schema with other metadata goes through the same uses of directives, in the same
order, and finds the same problems of the same declarations.

## Main definitions

* `Use.relabel`: a use of a directive with other metadata.

## Main statements

* `Schema.visited_relabel`: what is gone through.
* `Schema.mirrors_checkUse`: a single use of a directive.
* `Schema.mirrors_checkDefinitions`: the declarations of directives.
* `Schema.mirrors_check`: all of a schema.
-/

namespace GraphSchema

open Check (Mirrors)
open Node

variable {f : Metadata → Metadata}

/-! ## Uses -/

/-- A use of a directive with other metadata. -/
def Use.relabel (f : Metadata → Metadata) (u : Use) : Use :=
  ⟨u.above, u.element.relabel f, u.directive.relabel f⟩

theorem Use.place?_relabel (u : Use) : (u.relabel f).place? = u.place? := by
  rw [place?, place?, relabel, kind_relabel]

namespace Node

/-- The uses in a node with other metadata. -/
theorem uses_relabel (above : Kind) (n : Node) :
    (n.relabel f).uses above = (n.uses above).map (Use.relabel f) := by
  have hown : ((n.relabel f).childrenAt .directives).map (Use.mk above (n.relabel f)) =
      ((n.childrenAt .directives).map (Use.mk above n)).map (Use.relabel f) := by
    rw [childrenAt_relabel, List.map_map, List.map_map]
    rfl
  have hbelow : ∀ r, ((n.relabel f).childrenAt r).flatMap (uses n.kind) =
      ((n.childrenAt r).flatMap (uses n.kind)).map (Use.relabel f) := by
    intro r
    rw [childrenAt_relabel, List.flatMap_map, List.map_flatMap]
    refine List.flatMap_congr fun c hc => ?_
    have hsize := size_lt_of_mem_childrenAt hc
    exact uses_relabel n.kind c
  rw [uses_eq, uses_eq, kind_relabel, hown, List.map_append, List.map_flatMap]
  exact congrArg _ (List.flatMap_congr fun r _ => hbelow r)
termination_by n.size

/-! ## Types of arguments -/

theorem IsReference.innermost_relabel {t : Node} (h : t.IsReference) :
    (t.relabel f).innermost = t.innermost.relabel f := by
  by_cases hk : t.kind = .listType ∨ t.kind = .nonNullType
  · obtain ⟨inner, hinner, href⟩ := h.inner hk.symm
    have hsize := size_lt_of_child? (child?_eq hinner)
    have hinner' : (t.relabel f).child? .type = some (inner.relabel f) := by
      rw [child?_relabel, child?_eq hinner, Option.map_some]
    rw [innermost_eq hk (child?_eq hinner), innermost_eq (by rwa [kind_relabel]) hinner']
    exact href.innermost_relabel
  · rw [Node.innermost, Node.innermost, kind_relabel, if_neg hk, if_neg hk, Data.relabel_node]
termination_by t.size

theorem WellTyped.baseType_relabel {i : Node} (h : i.WellTyped)
    (hk : i.kind = .inputValueDefinition) : (i.relabel f).baseType = i.baseType.relabel f := by
  obtain ⟨-, t, ht, -, href⟩ := h.inputValue hk
  have hinner : (i.content .type).innermost = .node i.baseType := (h.baseType hk).1
  have hinner' : ((i.relabel f).content .type).innermost = .node (i.baseType.relabel f) := by
    rw [ht] at hinner
    rw [content_relabel, ht, Data.relabel_node, Data.innermost, href.innermost_relabel]
    change t.innermost = _ at hinner
    rw [hinner, Data.relabel_node]
  rw [Node.baseType, hinner']
  rfl

end Node

namespace Schema

variable {s : Schema} {d i : Node}

/-! ## What is gone through -/

theorem extensions_relabel (s : Schema) (k : TypeKind) :
    (s.relabel f).extensions k = (s.extensions k).map (Node.relabel f) := by
  change List.flatMap id (Table.values (Table.mapValues _ (s.registry.extensions k))) = _
  rw [Table.values_mapValues, extensions, List.flatMap_map, List.map_flatMap]
  rfl

theorem definitions_relabel (s : Schema) (k : TypeKind) :
    (s.relabel f).definitions k = (s.definitions k).map (Node.relabel f) := by
  unfold definitions
  split
  · exact Table.values_mapValues _ _
  · change List.filter _ (Table.values (Table.mapValues _ s.registry.types)) = _
    rw [Table.values_mapValues, Registry.typesOf, List.filter_map]
    simp only [Function.comp_def, kind_relabel]

theorem declarations_relabel (s : Schema) :
    (s.relabel f).declarations = s.declarations.map (Node.relabel f) := by
  have hschema : (s.relabel f).registry.schema.toList =
      s.registry.schema.toList.map (Node.relabel f) := Option.toList_map ..
  have horder : ∀ {ns ns' : TypeKind → List Node}, (∀ k, ns' k = (ns k).map (Node.relabel f)) →
      order.flatMap ns' = (order.flatMap ns).map (Node.relabel f) := by
    intro ns ns' h
    rw [List.map_flatMap]
    exact List.flatMap_congr fun k _ => h k
  rw [declarations, declarations, horder s.extensions_relabel, horder s.definitions_relabel,
    hschema, List.map_append, List.map_append, List.map_append]
  rfl

/-- The uses that are checked, in order. -/
theorem visited_relabel (s : Schema) : (s.relabel f).visited = s.visited.map (Use.relabel f) := by
  rw [visited, visited, declarations_relabel, List.flatMap_map, List.map_flatMap]
  exact List.flatMap_congr fun n _ => uses_relabel _ n

/-- The element that problems with a use are about. A schema that was not defined has no
metadata. -/
theorem subject_relabel (hf : f .none = .none) (s : Schema) (u : Use) :
    ∃ name : Text, s.subject u = ((s.subject u).1, .text name) ∧
      (s.relabel f).subject (u.relabel f) = ((s.subject u).1.relabel f, .text name) := by
  have hundefined : undefined.relabel f = undefined := by simp [undefined, hf]
  have hschema : (s.registry.schema.map (Node.relabel f)).getD undefined =
      (s.registry.schema.getD undefined).relabel f := by
    cases s.registry.schema with
    | none => exact hundefined.symm
    | some n => rfl
  unfold subject
  rw [Use.place?_relabel]
  split
  · exact ⟨_, rfl, congrArg (·, Data.text Problem.schemaElement) hschema⟩
  · exact ⟨_, rfl, by rw [Use.relabel, nameText_relabel]⟩

/-- A single use. -/
theorem mirrors_checkUse (hf : f .none = .none) (hr : s.registry.WellTyped) (hw : s.wiring.Blind f)
    {u : Use} (hu : u ∈ s.visited) :
    Mirrors f (s.checkUse u) ((s.relabel f).checkUse (u.relabel f)) := by
  have hu' : u.relabel f ∈ (s.relabel f).visited := by
    rw [visited_relabel]
    exact List.mem_map_of_mem hu
  obtain ⟨place, hplace, hcheck⟩ := checkUse_of_mem_visited hr hu
  obtain ⟨place', hplace', hcheck'⟩ := checkUse_of_mem_visited (s := s.relabel f) hr.relabel hu'
  rw [Use.place?_relabel, hplace] at hplace'
  cases hplace'
  obtain ⟨hd, hk⟩ := (of_mem_visited hr hu).1
  obtain ⟨name, hsubject, hsubject'⟩ := s.subject_relabel hf u
  rw [hcheck, hcheck', hsubject', hsubject]
  exact mirrors_checkDirective hr hw hd hk

/-! ## Declarations of directives -/

theorem mirrors_checkName (hd : d.HasName) :
    Mirrors f (checkName d) (checkName (d.relabel f)) := by
  have hget : d.get .name = .ok (.text d.nameText) := hd
  have hget' : (d.relabel f).get .name = .ok (.text d.nameText) :=
    hd.relabel.trans (congrArg (fun t => Except.ok (Data.text t)) d.nameText_relabel)
  simp only [checkName, hget, hget', ok_bind]
  refine Check.mirrors_foundIf ?_ rfl
  simp [Problem.IsWorded, Problem.shown, Problem.nameOf, hd.name_eq]

theorem typeProblem?_relabel (hi : i.WellTyped) (hk : i.kind = .inputValueDefinition) :
    (s.relabel f).typeProblem? (i.relabel f) = (s.typeProblem? i).map (Problem.relabel f) := by
  have hfound := Registry.type?_relabel (f := f) s.registry (.text i.baseType.nameText)
  rw [typeProblem?, typeProblem?, hi.baseType_relabel hk, nameText_relabel, nameText_relabel,
    relabel, hfound]
  cases s.registry.type? (.text i.baseType.nameText) with
  | none => simp [Problem.relabel]
  | some definition =>
    have hinput : Registry.isInputDefinition (definition.relabel f) =
        Registry.isInputDefinition definition := by
      rw [Registry.isInputDefinition, Registry.isInputDefinition, kind_relabel]
    dsimp only [Option.map_some]
    rw [hinput]
    split <;> rfl

theorem isWorded_typeProblem? {p : Problem} (hi : i.WellTyped)
    (hk : i.kind = .inputValueDefinition) (h : s.typeProblem? i = some p) : p.IsWorded := by
  unfold typeProblem? at h
  split at h
  · cases h
    simp [Problem.IsWorded, Problem.shown]
  · split at h
    · cases h
    · cases h
      simp [Problem.IsWorded, Problem.shown, (hi.baseType hk).2.name_eq]

theorem mirrors_checkInputType (hi : i.WellTyped) (hk : i.kind = .inputValueDefinition) :
    Mirrors f (s.checkInputType i) ((s.relabel f).checkInputType (i.relabel f)) := by
  rw [checkInputType_eq hi hk,
    checkInputType_eq (s := s.relabel f) hi.relabel (by rwa [kind_relabel]),
    typeProblem?_relabel hi hk]
  cases h : s.typeProblem? i with
  | none => exact Check.mirrors_clean
  | some p => exact Check.mirrors_found (isWorded_typeProblem? hi hk h) rfl

theorem mirrors_checkDeclaredArgument (hd : d.HasName) (hi : i.WellTyped)
    (hk : i.kind = .inputValueDefinition) :
    Mirrors f (s.checkDeclaredArgument d (.node i))
      ((s.relabel f).checkDeclaredArgument (d.relabel f) (.node (i.relabel f))) := by
  have hr : (.directives, .children) ∈ i.kind.layout := by rw [hk]; simp [Kind.layout]
  have happlied : (i.relabel f).hasDirective (d.relabel f).name = i.hasDirective d.name := by
    rw [hd.name_eq, hd.relabel.name_eq, nameText_relabel, hi.hasDirective_eq hr,
      hi.relabel.hasDirective_eq (by rwa [kind_relabel]), childrenAt_relabel, List.any_map]
    simp only [Function.comp_def, nameText_relabel]
  have hi' := (hi.inputValue hk).1
  refine (mirrors_checkName hi').both ((mirrors_checkInputType hi hk).both ?_)
  rw [happlied]
  refine .bindSame fun b _ => Check.mirrors_foundIf ?_ rfl
  simp [Problem.IsWorded, Problem.shown, hd.name_eq, hi'.name_eq]

/-- All declarations of directives. -/
theorem mirrors_checkDefinitions (hr : s.registry.WellTyped) :
    Mirrors f s.checkDefinitions (s.relabel f).checkDefinitions := by
  have hvalues : (s.relabel f).registry.directives.values =
      s.registry.directives.values.map (Node.relabel f) := Table.values_mapValues _ _
  rw [checkDefinitions, checkDefinitions, hvalues]
  refine .each fun d hd => ?_
  obtain ⟨e, he, rfl⟩ := List.mem_map.1 hd
  have hentry := hr.directives e he
  obtain ⟨⟨hitems, hparams⟩, -⟩ := hentry.wellTyped.directiveDefinition hentry.kind
  have hname : e.2.HasName := hentry.wellTyped.hasName (by rw [hentry.kind]; simp [Kind.layout])
  refine (mirrors_checkName hname).both ?_
  rw [content_relabel, Data.items_relabel, hitems]
  exact .eachNode fun i hi =>
    mirrors_checkDeclaredArgument hname (hparams i hi).1 (hparams i hi).2

/-- All of a schema. -/
theorem mirrors_check (hf : f .none = .none) (hr : s.registry.WellTyped)
    (hw : s.wiring.Blind f) : Mirrors f s.check (s.relabel f).check := by
  rw [check_eq hr, check_eq (s := s.relabel f) hr.relabel, visited_relabel]
  exact (Mirrors.each fun u hu => mirrors_checkUse hf hr hw hu).both (mirrors_checkDefinitions hr)

end Schema

end GraphSchema
