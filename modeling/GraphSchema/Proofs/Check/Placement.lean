import GraphSchema.Check.Schema
import GraphSchema.Proofs.Check.Congruence
import GraphSchema.Proofs.Check.Report
import GraphSchema.Proofs.Registry.Merge
import GraphSchema.Proofs.Registry.Placement
import GraphSchema.Proofs.Validation

/-!
# Checks do not see where declarations stand

The checks of a schema read its registry by looking up names, and go through types kind by kind. So
they find the same, in the same order, wherever declarations of different kinds stand in a document.

## Main statements

* `Registry.Agrees.extendedType?_eq`: types with their extensions.
* `Schema.check_congr`: all checks of a schema.
* `Schema.check_ofDocument_rearranged`: documents in another order.
-/

namespace GraphSchema

variable {r q : Registry}

namespace Registry.Agrees

variable (h : r.Agrees q)

include h

theorem extendedType?_eq (name : Atom) : r.extendedType? name = q.extendedType? name := by
  have hof : ∀ n, r.extensionsOf name n = q.extensionsOf name n := by
    intro n
    rw [extensionsOf, extensionsOf, h.extensions]
  simp only [extendedType?, h.type?, hof]

end Registry.Agrees

namespace Usage

theorem checkArgument_congr (h : r.Agrees q) (u : Usage) (type : Data) :
    checkArgument { u with registry := r } type = checkArgument { u with registry := q } type := by
  refine bind_congr fun value => ?_
  simp only [matchesType_congr h.extendedType?_eq u value type]
  rfl

end Usage

namespace Schema

section Congr

variable (h : r.Agrees q) (w : Wiring)

include h

theorem checkGiven_congr : checkGiven ⟨r, w⟩ = checkGiven ⟨q, w⟩ := by
  funext element elementName directive declared name argument
  unfold checkGiven
  split
  · rename_i argument _
    refine bind_congr fun type => ?_
    exact Usage.checkArgument_congr h ⟨r, w, directive, element, elementName, argument⟩ type
  · rfl

theorem checkArguments_congr : checkArguments ⟨r, w⟩ = checkArguments ⟨q, w⟩ := by
  funext element elementName directive definition
  simp only [checkArguments, checkGiven_congr h w]

theorem checkDirective_congr : checkDirective ⟨r, w⟩ = checkDirective ⟨q, w⟩ := by
  have hdirective : r.directive? = q.directive? := by
    funext name
    rw [Registry.directive?, Registry.directive?, h.directives]
  funext location element elementName directive
  simp only [checkDirective, hdirective, checkArguments_congr h w]

theorem checkElement_congr : checkElement ⟨r, w⟩ = checkElement ⟨q, w⟩ := by
  funext place d
  simp only [checkElement, checkDirectives, checkDirective_congr h w]

theorem checkType_congr : checkType ⟨r, w⟩ = checkType ⟨q, w⟩ := by
  have hfield : checkField ⟨r, w⟩ = checkField ⟨q, w⟩ := by
    funext field
    simp only [checkField, checkElement_congr h w]
  funext k n
  simp only [checkType, checkMembers, hfield, checkElement_congr h w]

theorem checkSchema_congr : checkSchema ⟨r, w⟩ = checkSchema ⟨q, w⟩ := by
  simp only [checkSchema, checkDirectives, checkDirective_congr h w, h.schema, h.schemaExtensions]

theorem checkDefinition_congr : checkDefinition ⟨r, w⟩ = checkDefinition ⟨q, w⟩ := by
  have hargument : checkDeclaredArgument ⟨r, w⟩ = checkDeclaredArgument ⟨q, w⟩ := by
    funext definition argument
    simp only [checkDeclaredArgument, checkInputType, h.type?]
  funext definition
  simp only [checkDefinition, hargument]

/-- In registries that agree the checks find the same in the same order, and make the same calls. -/
theorem check_congr : check ⟨r, w⟩ = check ⟨q, w⟩ := by
  have hextensions : extensions ⟨r, w⟩ = extensions ⟨q, w⟩ := by
    funext k
    rw [extensions, extensions, h.extensions]
  have hdefinitions : definitions ⟨r, w⟩ = definitions ⟨q, w⟩ := by
    funext k
    rw [definitions, definitions, h.scalars, h.typesOf]
  simp only [check, checkDefinitions, hextensions, hdefinitions, checkType_congr h w,
    checkSchema_congr h w, checkDefinition_congr h w, h.directives]

end Congr

/-- Declarations that do not repeat each other can be moved past declarations of other kinds: both
documents are accepted, and with every wiring the checks find the same problems, in the same order,
and make the same calls. -/
theorem check_ofDocument_rearranged (w : Wiring) (document other : Node)
    (hitems : ∀ n ∈ document.childrenAt .definitions, Registry.IsItem n)
    (hpairwise : (document.childrenAt .definitions).Pairwise Registry.Compatible)
    (h : Registry.Rearranges (other.childrenAt .definitions) (document.childrenAt .definitions)) :
    (Registry.empty.addDocument document).2 = [] ∧ (Registry.empty.addDocument other).2 = [] ∧
      (ofDocument other w).check = (ofDocument document w).check :=
  ⟨Registry.problems_addAll_eq_nil hitems hpairwise,
    Registry.problems_addAll_eq_nil (h.isItem hitems) (h.pairwise hpairwise),
    check_congr (h.agrees hitems hpairwise) w⟩

/-- The definition of a scalar in front of an extension with a directive that is not declared. -/
def extensionLast : Grammar.Document where
  definitions :=
    [.type none "A" [] .scalar, .typeExtension "A" [⟨"b", []⟩] .scalar (.inl (by simp))]
  nonempty := by simp

/-- The same extension in front of the definition. -/
def extensionFirst : Grammar.Document where
  definitions := extensionLast.definitions.reverse
  nonempty := by simp [extensionLast]

/-- An extension is checked as well in front of the definition that it extends. -/
theorem check_ofDocument_rearranged_extension :
    (ofDocument extensionFirst.node .empty).check =
      (ofDocument extensionLast.node .empty).check := by
  refine (check_ofDocument_rearranged .empty extensionLast.node extensionFirst.node ?_ ?_ ?_).2.2
  · exact List.forall_mem_cons.2 ⟨⟨rfl, .inr (.inr ⟨.text "A", rfl⟩)⟩,
      List.forall_mem_singleton.2 ⟨rfl, .inr (.inr ⟨.text "A", rfl⟩)⟩⟩
  · exact List.pairwise_pair.2 fun hkey => absurd rfl hkey
  · exact Registry.rearranges_swap [] [] (by decide)

end Schema

end GraphSchema
