import GraphSchema.Check.Usage
import Mathlib.Tactic.Conv

/-!
# What comparisons look up

All that the comparison of a value with a type reads of a registry are types with their extensions.
In registries in which each name stands for the same extended type, it finds the same problems,
makes the same calls, and fails in the same way.

## Main statements

* `Usage.matchesType_congr`: comparing values with types.
-/

namespace GraphSchema

namespace Usage

variable {r q : Registry}

theorem definition?_congr (h : ∀ name, r.extendedType? name = q.extendedType? name) (u : Usage)
    (reference : Node) : definition? { u with registry := r } reference =
      definition? { u with registry := q } reference := by
  simp only [definition?, h]

/-- Comparing a value with a type. A value that stands for a list of one item stays as it is while
the type gets smaller; otherwise the value gets smaller, and the type may be any. -/
theorem matchesType_congr (h : ∀ name, r.extendedType? name = q.extendedType? name) (u : Usage)
    (value type : Data) :
    matchesType { u with registry := r } value type =
      matchesType { u with registry := q } value type := by
  cases type with
  | node reference =>
    conv_lhs => rw [matchesType]
    conv_rhs => rw [matchesType]
    have hinner := reference.size_content_lt .type
    cases hk : reference.kind with
    | nonNullType =>
      refine ite_congr rfl (fun _ => rfl) fun _ => ?_
      exact matchesType_congr h u value (reference.content .type)
    | listType =>
      cases value with
      | node v =>
        refine ite_congr rfl (fun _ => rfl) fun _ => ite_congr rfl (fun _ => ?_) fun _ => ?_
        · refine congrArg (Check.each _) (funext fun x => ?_)
          obtain ⟨item, hitem⟩ := x
          have hsize := Nat.lt_of_le_of_lt (Data.size_le_of_mem_items hitem)
            (v.size_content_lt .values)
          exact congrArg (Check.both _) (matchesType_congr h u item (reference.content .type))
        · exact matchesType_congr h u (.node v) (reference.content .type)
      | _ => exact matchesType_congr h u _ (reference.content .type)
    | namedType =>
      refine ite_congr rfl (fun _ => rfl) fun _ => ?_
      -- Nothing else reads the registry.
      simp only [definition?_congr h u reference]
      refine bind_congr fun definition => ?_
      cases definition with
      | none => rfl
      | some definition =>
        simp only
        split
        · rfl
        · rfl
        · cases value with
          | node v =>
            refine ite_congr rfl (fun _ => ?_) fun _ => rfl
            refine bind_congr fun given => bind_congr fun report => ?_
            refine ite_congr rfl (fun _ => ?_) fun _ => rfl
            refine congrArg (Check.each _) (funext fun declared => ?_)
            refine bind_congr fun name => bind_congr fun key => ?_
            cases field? v key with
            | none => rfl
            | some f =>
              obtain ⟨f, hf⟩ := f
              simp only
              split
              · rename_i given hgiven
                have hsize := Nat.lt_trans (Data.size_lt_of_get hgiven) hf
                exact bind_congr fun type => matchesType_congr h u given type
              · rfl
          | _ => rfl
        · rfl
    | _ => rfl
  | _ => simp only [matchesType]
termination_by (value.size, type.size)
decreasing_by
  all_goals first
    | exact Prod.Lex.right _ hinner
    | exact Prod.Lex.left _ _ hsize

end Usage

end GraphSchema
