import GraphSchema.Proofs.Check.Argument
import GraphSchema.Proofs.Check.Definition

/-!
# Uses at fault

A use of a directive is at fault if the directive is not declared, or if it may not be used at the
place where it stands. A check finds a problem for each such use, once, but does not look at the
uses on the arguments of declared directives.

## Main definitions

* `Use.Fault`: the ways in which a use can be at fault.
* `Use.Fault.holds`, `Use.Fault.isReported`: the uses and the problems.

## Main statements

* `Schema.counts_check_fault`: how many problems a check finds.
* `Schema.countP_isReported`: when these are as many as there are uses at fault.
-/

namespace GraphSchema

open Check (Counts)

/-- The ways in which a use of a directive can be at fault. -/
inductive Use.Fault where
  | undeclared
  | misplaced

namespace Use.Fault

/-- The use is at fault: its directive is not declared, or it is, and does not list the place, in
letters of any case. -/
def holds (r : Registry) (fault : Fault) (u : Use) : Bool :=
  match fault, r.directive? (.text u.directive.nameText) with
  | undeclared, none => true
  | misplaced, some definition =>
    u.place?.any fun place =>
      place.label.capital ∉ (definition.childrenAt .locations).map fun l => l.nameText.capital
  | _, _ => false

/-- The problem is about a use that is at fault. -/
def isReported : Fault → Problem → Bool
  | undeclared, .undeclaredDirective _ _ _ => true
  | misplaced, .illegalLocation _ _ _ _ => true
  | _, _ => false

theorem isReported_eq_false {fault : Fault} {p : Problem} (h : p.isOfArgument) :
    fault.isReported p = false := by
  cases fault <;> cases p <;> first | rfl | cases h

end Use.Fault

namespace Schema

open Node

variable {T : Prop} {s : Schema}

/-- A single use. -/
theorem counts_checkUse (hr : s.registry.WellTyped)
    (hw : T → s.wiring.ScalarsReject ∧ s.wiring.CoercersReject) (fault : Use.Fault) {u : Use}
    (hu : u ∈ s.visited) :
    Counts T fault.isReported (s.checkUse u) (if fault.holds s.registry u then 1 else 0) := by
  obtain ⟨⟨hd, hk⟩, -⟩ := of_mem_visited hr hu
  obtain ⟨place, hplace, hcheck⟩ := checkUse_of_mem_visited hr hu
  have hsort : ∀ p : Problem, p.isOfArgument → fault.isReported p = false :=
    fun p hp => Use.Fault.isReported_eq_false hp
  rw [hcheck]
  refine (counts_checkDirective hr hw hsort hd hk).of_eq ?_
  cases hdef : s.registry.directive? (.text u.directive.nameText) with
  | none => cases fault <;> simp [Use.Fault.holds, Use.Fault.isReported, hdef]
  | some definition => cases fault <;> simp [Use.Fault.holds, Use.Fault.isReported, hdef, hplace]

/-- A check finds a problem for each use that is at fault, those on the arguments of declared
directives left out. -/
theorem counts_check_fault (hr : s.registry.WellTyped)
    (hw : T → s.wiring.ScalarsReject ∧ s.wiring.CoercersReject) (fault : Use.Fault) :
    Counts T fault.isReported s.check
      ((s.registry.elements.flatMap (Node.uses .document)).countP (fault.holds s.registry)) := by
  have hdefinitions : Counts T fault.isReported s.checkDefinitions 0 := by
    refine (counts_checkDefinitions hr ?_ ?_).of_eq (List.countP_eq_zero.2 fun p hp => ?_)
    · intro n
      cases fault <;> rfl
    · intro n m
      cases fault <;> rfl
    · obtain ⟨i, -, hi⟩ := List.mem_filterMap.1 hp
      rcases exists_of_typeProblem? hi with ⟨t, n, e, rfl⟩ | ⟨t, d, rfl⟩ <;>
        cases fault <;> simp [Use.Fault.isReported]
  rw [check_eq hr, ← (visited_perm hr).countP_eq]
  exact (Check.counts_each_countP fun u hu => counts_checkUse hr hw fault hu).both hdefinitions

/-- How many problems a check finds in a schema, such as that of a document: with the uses at fault
on the arguments of declared directives, which are not looked at, they are as many as there are uses
at fault. So they are as many as these by themselves if and only if there are no such uses on
arguments of declared directives. -/
theorem countP_isReported (s : Schema) (hr : s.registry.WellTyped) :
    (∀ report, s.check = .ok report → ∀ fault : Use.Fault,
      report.problems.countP fault.isReported +
          s.registry.parameterUses.countP (fault.holds s.registry) =
        s.registry.uses.countP (fault.holds s.registry) ∧
      (report.problems.countP fault.isReported = s.registry.uses.countP (fault.holds s.registry) ↔
        ∀ u ∈ s.registry.parameterUses, fault.holds s.registry u = false)) ∧
    (s.wiring.ScalarsReject → s.wiring.CoercersReject → ∃ report, s.check = .ok report) := by
  have hcounts := fun fault => counts_check_fault (T := s.wiring.ScalarsReject ∧
    s.wiring.CoercersReject) hr id fault
  refine ⟨fun report hreport fault => ?_, fun hs hc => (hcounts .undeclared).total ⟨hs, hc⟩⟩
  have hcount := (hcounts fault).sound report hreport
  have huses : s.registry.uses.countP (fault.holds s.registry) =
      report.problems.countP fault.isReported +
        s.registry.parameterUses.countP (fault.holds s.registry) := by
    rw [Registry.uses, List.countP_append, hcount]
  have hzero : (∀ u ∈ s.registry.parameterUses, fault.holds s.registry u = false) ↔
      s.registry.parameterUses.countP (fault.holds s.registry) = 0 := by
    rw [List.countP_eq_zero]
    simp
  rw [hzero]
  omega

/-- A document that uses a directive on an argument of a declared directive and does not declare
it. -/
def parameterText : Text := "directive @a(x: Int @b) on OBJECT"

theorem exists_parse_parameterText :
    ∃ document, (Parser.Document.ofText parameterText none true).parse = .ok document :=
  exists_of_isOk (by decide +kernel)

/-- The schema of this document, without scalars and coercers from outside. -/
theorem countP_isReported_parameterText :
    ∃ document, (Parser.Document.ofText parameterText none true).parse = .ok document ∧
      let s : Schema := ⟨(Registry.empty.addDocument document).1, .empty⟩
      (∀ report, s.check = .ok report → ∀ fault : Use.Fault,
        report.problems.countP fault.isReported +
            s.registry.parameterUses.countP (fault.holds s.registry) =
          s.registry.uses.countP (fault.holds s.registry) ∧
        (report.problems.countP fault.isReported =
            s.registry.uses.countP (fault.holds s.registry) ↔
          ∀ u ∈ s.registry.parameterUses, fault.holds s.registry u = false)) ∧
      (s.wiring.ScalarsReject → s.wiring.CoercersReject → ∃ report, s.check = .ok report) := by
  obtain ⟨document, hparse⟩ := exists_parse_parameterText
  exact ⟨document, hparse, countP_isReported ⟨(Registry.empty.addDocument document).1, .empty⟩
    (Registry.OfDocument.wellTyped ⟨_, _, _, document, hparse, rfl⟩)⟩

end Schema

end GraphSchema
