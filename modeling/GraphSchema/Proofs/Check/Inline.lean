import GraphSchema.Proofs.Check.Congruence
import GraphSchema.Proofs.Registry.Inline

/-!
# Checks do not see where members stand

Comparing a value with a type finds the same whether members of types are declared by extensions or
written in the definitions.

## Main definitions

* `Registry.CountsInline`: extensions count as if they were written inline.

## Main statements

* `Registry.addAll_countsInline`: they do so in all registries.
-/

namespace GraphSchema

namespace Registry

open Grammar (Definition)

variable {ns : List Node}

/-- In the registry of some declarations, extensions count as if they were written inline. -/
structure CountsInline (ns : List Node) (r : Registry) : Prop where
  /-- An extended type is its definition, with the children of the extensions of its kind and name
  behind its own in the order of the declarations. -/
  extendedType? : ∀ name base, r.type? name = some base → ∃ k, base.kind = .typeDefinition k ∧
    r.extendedType? name = .ok (some (base.inlined (extensionsIn ns k name)))
  inlines : Inlines r r.inlined
  /-- Comparing values with types finds the same with extended definitions and no extensions. -/
  matchesType : ∀ q, Inlines r q → ∀ (u : Usage) (value type : Data),
    Usage.matchesType { u with registry := r } value type =
      Usage.matchesType { u with registry := q } value type

/-- Extensions count as if they were written inline, in whatever order well-typed declarations were
added, and whether or not some of them were refused. -/
theorem addAll_countsInline (hns : ∀ n ∈ ns, n.WellTyped ∧ n.kind.isDeclaration) :
    CountsInline ns (empty.addAll ns).1 := by
  have h := keeps_addAll fun n hn => isItem_of_wellTyped (hns n hn).1 (hns n hn).2
  have hwell := wellTyped_empty.addAll hns
  exact ⟨fun _ _ => h.extendedType?_eq hwell, h.inlines_inlined hwell,
    fun _ hq => Usage.matchesType_congr (h.extendedType?_of_inlines hwell hq)⟩

/-- A required field of an input object. -/
def fieldNamed (name : Text) : Grammar.InputValue := ⟨none, name, .named "Int" true, none, []⟩

/-- An extension of an input object in front of its definition, and one behind it. -/
def extendedInput : List Node :=
  [Definition.typeExtension "A" [] (.inputObject [fieldNamed "y"]) (.inr nofun),
   Definition.type none "A" [] (.inputObject [fieldNamed "x"]),
   Definition.typeExtension "A" [] (.inputObject [fieldNamed "z"]) (.inr nofun)].map Definition.node

/-- The fields of both extensions stand behind the one of the definition. -/
theorem addAll_countsInline_input :
    ∃ n, (empty.addAll extendedInput).1.extendedType? (.text "A") = .ok (some n) ∧
      (n.childrenAt .fields).map Node.name = [.text "x", .text "y", .text "z"] ∧
      ∀ (u : Usage) (value type : Data),
        Usage.matchesType { u with registry := (empty.addAll extendedInput).1 } value type =
          Usage.matchesType { u with registry := (empty.addAll extendedInput).1.inlined }
            value type := by
  have hns : ∀ n ∈ extendedInput, n.WellTyped ∧ n.kind.isDeclaration := by
    intro n hn
    obtain ⟨d, -, rfl⟩ := List.mem_map.1 hn
    exact ⟨d.wellTyped_node, d.isDeclaration_kind⟩
  have h := addAll_countsInline hns
  obtain ⟨k, hk, hextended⟩ := h.extendedType? (.text "A") _ rfl
  cases hk
  exact ⟨_, hextended, rfl, h.matchesType _ h.inlines⟩

end Registry

end GraphSchema
