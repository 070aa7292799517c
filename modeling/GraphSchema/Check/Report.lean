import GraphSchema.Callback
import GraphSchema.Problem

/-!
# Reports

What a check finds: problems, and the calls of callbacks that were made on the way, both in order.

## Main definitions

* `Report`: a report, with `Report.none`, `Report.append` and `Report.join`.
* `Check`: a report, unless the check fails altogether.
-/

namespace GraphSchema

/-- Problems and calls in order. -/
structure Report where
  problems : List Problem
  calls : List Call

namespace Report

/-- Nothing was found and nothing was called. -/
def none : Report := ⟨[], []⟩

/-- One problem. -/
def ofProblem (p : Problem) : Report := ⟨[p], []⟩

/-- One report after the other. -/
def append (a b : Report) : Report := ⟨a.problems ++ b.problems, a.calls ++ b.calls⟩

instance : Append Report := ⟨append⟩

/-- All reports in order. -/
def join (rs : List Report) : Report := ⟨rs.flatMap problems, rs.flatMap calls⟩

/-- Nothing was found. -/
def isClean (r : Report) : Bool := r.problems.isEmpty

/-- The records of calls. -/
def callRecords (calls : List Call) : Data := .list (calls.map Call.toRecord)

/-- A report as a record; `described` adds the forms that problems have in lists. -/
def toRecord (described : Bool) (r : Report) : List (Text × Data) :=
  [Data.field "errors" (.list (r.problems.map (Problem.toRecord described))),
    Data.field "calls" (callRecords r.calls)]

end Report

/-- A check: a report, or a failure that ends all checking. -/
abbrev Check := Except Failure Report

namespace Check

/-- Finds nothing. -/
def clean : Check := .ok .none

/-- Finds a problem. -/
def found (p : Problem) : Check := .ok (.ofProblem p)

/-- Finds a problem if a condition holds. -/
def foundIf (condition : Bool) (p : Problem) : Check := if condition then found p else clean

/-- One check after the other. -/
def both (a b : Check) : Check := do return (← a) ++ (← b)

/-- Checks each of some things in order. -/
def each {α : Type} (xs : List α) (check : α → Check) : Check := do
  return .join (← xs.mapM check)

end Check

end GraphSchema
