import GraphSchema.Check.Usage
import GraphSchema.Proofs.Check.Report

/-!
# What problems with values are about

Whatever is found wrong with a value that a directive is given is said of the argument that it is
given for, also where a part of the value does not fit. This is so for all values and types, be they
literals and references or not. Comparing values with types calls scalars and no coercers.

## Main definitions

* `Usage.Owns`: a problem is about an argument of a directive on an element.
* `Usage.Misfits`: a problem with the form of the value.
* `Wiring.IsReading`: a call of a scalar.

## Main statements

* `Usage.only_matchesType`: comparing values with types.
* `Usage.only_checkArgument`: values of arguments.
-/

namespace GraphSchema

/-- A scalar is called to read a datum. -/
def Wiring.IsReading (w : Wiring) (call : Call) : Prop :=
  ∃ name scalar value, w.scalar? name = some scalar ∧ call ∈ scalar.calls value

namespace Usage

open Check (Only only_ok only_error only_clean only_found)

/-- The problem is that the value of this argument, or a part of it, does not fit. -/
def Owns (u : Usage) (p : Problem) : Prop :=
  ∃ kind detail value,
    p = .badValue kind u.element u.elementName u.directive u.argument.name detail value

/-- The problem is that the value of this argument, or a part of it, is not of its type. -/
def Misfits (u : Usage) (p : Problem) : Prop :=
  ∃ kind detail value, kind ≠ .coercion ∧
    p = .badValue kind u.element u.elementName u.directive u.argument.name detail value

variable {u : Usage}

theorem Misfits.owns {p : Problem} (h : u.Misfits p) : u.Owns p := by
  obtain ⟨kind, detail, value, -, hp⟩ := h
  exact ⟨kind, detail, value, hp⟩

theorem only_mismatch {kind : Problem.Mismatch} {detail : Text} {value : Data} {K : Call → Prop}
    (h : kind ≠ .coercion) : Only u.Misfits K (u.mismatch kind detail value) :=
  only_found ⟨_, _, _, h, rfl⟩

theorem only_checkScalar (value : Data) (definition : Node) :
    Only u.Misfits u.wiring.IsReading (u.checkScalar value definition) := by
  unfold checkScalar
  split
  · exact only_mismatch (by simp)
  split
  · exact only_clean
  · rename_i s hs
    obtain ⟨name, -, hname⟩ := Option.bind_eq_some_iff.1 hs
    have hcalls : ∀ call ∈ s.calls value, u.wiring.IsReading call :=
      fun call hcall => ⟨name, s, value, hname, hcall⟩
    split
    · exact only_ok (by simp) hcalls
    split
    · exact (only_mismatch (by simp)).after (by simp) hcalls
    · exact only_error

theorem only_checkEnum (value : Data) (definition : Node) :
    Only u.Misfits u.wiring.IsReading (u.checkEnum value definition) := by
  unfold checkEnum
  split
  · exact only_mismatch (by simp)
  refine Only.bind fun allowed _ => ?_
  dsimp only
  split
  · exact only_clean
  · exact Only.bind fun _ _ => only_mismatch (by simp)

/-- Comparing the names of fields makes no calls. -/
theorem only_checkKeys {K : Call → Prop} (value definition : Node) (given : List (Atom × Data)) :
    Only u.Misfits K (u.checkKeys value definition given) := by
  unfold checkKeys
  dsimp only
  split
  · refine Only.bind fun _ _ => Only.bind fun _ _ => only_mismatch (by simp)
  refine Only.bind fun _ _ => Only.bind fun _ _ => ?_
  split
  · exact only_clean
  · exact Only.bind fun _ _ => only_mismatch (by simp)

theorem only_checkMissing (value : Node) (declared : Data) :
    Only u.Misfits u.wiring.IsReading (u.checkMissing value declared) := by
  refine Only.bind fun _ _ => ?_
  split
  · exact Only.bind fun _ _ => only_mismatch (by simp)
  · exact only_clean

theorem only_checkItem (item type : Data) :
    Only u.Misfits u.wiring.IsReading (u.checkItem item type) := by
  unfold checkItem
  split
  · exact only_mismatch (by simp)
  · exact only_clean

/-- The value gets smaller in lists and objects, and the type where it stays as it is. -/
theorem only_matchesType (value type : Data) :
    Only u.Misfits u.wiring.IsReading (u.matchesType value type) := by
  cases type with
  | node reference =>
    rw [matchesType]
    have hinner := reference.size_content_lt .type
    cases hk : reference.kind with
    | nonNullType =>
      dsimp only
      refine Only.ite ?_ ?_
      · exact only_mismatch (by simp)
      · exact only_matchesType value (reference.content .type)
    | listType =>
      cases value with
      | node v =>
        dsimp only
        refine Only.ite only_clean ?_
        refine Only.ite ?_ ?_
        · refine Only.each fun x _ => ?_
          obtain ⟨item, hitem⟩ := x
          have hsize := Nat.lt_of_le_of_lt (Data.size_le_of_mem_items hitem)
            (v.size_content_lt .values)
          exact (only_checkItem _ _).both (only_matchesType item (reference.content .type))
        · exact only_matchesType (.node v) (reference.content .type)
      | _ => exact only_matchesType _ (reference.content .type)
    | namedType =>
      dsimp only
      refine Only.ite only_clean ?_
      refine Only.bind fun definition _ => ?_
      cases definition with
      | none => exact only_clean
      | some definition =>
        dsimp only
        split
        · exact only_checkScalar value definition
        · exact only_checkEnum value definition
        · cases value with
          | node v =>
            dsimp only
            refine Only.ite ?_ ?_
            · refine Only.bind fun given _ => Only.bind fun report hreport => ?_
              refine Only.ite ?_ ?_
              · refine Only.each fun declared _ => Only.bind fun _ _ => Only.bind fun key _ => ?_
                cases field? v key with
                | none => exact only_checkMissing v declared
                | some f =>
                  obtain ⟨f, hf⟩ := f
                  dsimp only
                  split
                  · rename_i given hgiven
                    have hsize := Nat.lt_trans (Data.size_lt_of_get hgiven) hf
                    exact Only.bind fun type _ => only_matchesType given type
                  · exact only_error
              · have hkeys := only_checkKeys (u := u) (K := u.wiring.IsReading) v definition given
                exact only_ok (hkeys.problems report hreport) (hkeys.calls report hreport)
            · exact only_mismatch (by simp)
          | _ => exact only_mismatch (by simp)
        · exact only_clean
    | _ => exact only_error
  | _ => simp only [matchesType, only_error]
termination_by (value.size, type.size)
decreasing_by
  all_goals first
    | exact Prod.Lex.right _ hinner
    | exact Prod.Lex.left _ _ hsize

theorem only_coerce (value : Data) : Only u.Owns (fun _ => True) (u.coerce value) := by
  unfold coerce
  dsimp only
  split
  · exact only_clean
  split
  · exact only_ok (by simp) fun _ _ => trivial
  · exact .ite ((only_found ⟨_, _, _, rfl⟩).after (by simp) fun _ _ => trivial) only_error

/-- All problems with the value of an argument are about this argument. -/
theorem only_checkArgument (type : Data) :
    Only u.Owns (fun _ => True) (u.checkArgument type) := by
  refine .bind fun value _ => .bind fun report hreport => ?_
  have hreport := ((only_matchesType value type).imp (fun _ => Misfits.owns)
    fun _ _ => trivial).problems report hreport
  exact .ite ((only_coerce value).after hreport fun _ _ => trivial)
    (only_ok hreport fun _ _ => trivial)

end Usage

end GraphSchema
