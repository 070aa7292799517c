import GraphSchema.Check.Schema
import GraphSchema.Proofs.Check.Owner

/-!
# Reports that are passed along

Each check makes a report of its own, and the reports are put together. One can also pass a single
report along, to which each check appends what it finds; whether a check has found anything is then
seen from whether there are more problems than before. Both ways lead to the same reports.

## Main definitions

* `Check.onto`: a check that appends to what was found before.
* `Usage.matchesTypeOnto`, `Usage.checkArgumentOnto`, `Schema.checkDirectivesOnto`: the checks of
  values, of arguments and of directives with a report that is passed along.

## Main statements

* `Check.onto_ifClean`: comparing the numbers of problems tells whether a check has found anything.
* `Usage.checkArgumentOnto_eq`, `Schema.checkDirectivesOnto_eq`: what is appended is what these
  checks find by themselves.
-/

namespace GraphSchema

theorem Report.append_none (r : Report) : r ++ Report.none = r := by
  change Report.append r Report.none = r
  simp [Report.append, Report.none]

/-- A report is clean just if there are no more problems when it was appended to another one. -/
theorem Report.length_problems_append_iff (before report : Report) :
    (before ++ report).problems.length = before.problems.length ↔ report.isClean := by
  rw [problems_append, List.length_append, Nat.add_eq_left, List.length_eq_zero_iff, isClean_iff]

namespace Check

variable {α : Type} {a b c : Check} {before : Report}

/-- A check that appends what it finds to what was found before. -/
def onto (c : Check) (before : Report) : Check := both (.ok before) c

theorem onto_clean : clean.onto before = .ok before := congrArg Except.ok before.append_none

theorem onto_ite {p : Prop} [Decidable p] :
    (if p then a else b).onto before = if p then a.onto before else b.onto before :=
  apply_ite (onto · before) p a b

theorem onto_both : (both a b).onto before = a.onto before >>= fun after => b.onto after := by
  cases a with
  | error f => rfl
  | ok r => exact (both_assoc (.ok before) (.ok r) b).symm

/-- Things that are checked in order append to the same report, one after the other. -/
theorem onto_each (xs : List α) (check : α → Check) :
    (each xs check).onto before = xs.foldlM (fun report x => (check x).onto report) before := by
  induction xs generalizing before with
  | nil => exact onto_clean
  | cons x xs ih =>
    rw [each_cons, onto_both, List.foldlM_cons]
    exact bind_congr fun report => ih

theorem onto_bind (x : Except Failure α) (f : α → Check) :
    Check.onto (x >>= f) before = x >>= fun y => (f y).onto before := by
  cases x <;> rfl

/-- A check, and what follows if nothing was found. -/
theorem onto_ifClean {rest : Report → Check} (next : Report → Check)
    (h : ∀ report, c = .ok report → report.isClean →
      (rest report).onto before = next (before ++ report)) :
    Check.onto (do
      let report ← c
      if report.isClean then rest report else return report) before =
    (do
      let after ← c.onto before
      if after.problems.length = before.problems.length then next after else return after) := by
  cases c with
  | error f => rfl
  | ok report =>
    change Check.onto (if report.isClean then rest report else .ok report) before =
      if (before ++ report).problems.length = before.problems.length then next (before ++ report)
      else .ok (before ++ report)
    by_cases hclean : report.isClean
    · rw [if_pos hclean, if_pos ((before.length_problems_append_iff report).2 hclean)]
      exact h report rfl hclean
    · rw [if_neg hclean, if_neg (mt (before.length_problems_append_iff report).1 hclean)]
      rfl

end Check

/-! ## Values -/

namespace Usage

open Check (onto_clean onto_ite onto_both onto_each onto_bind onto_ifClean)

variable {u : Usage} {before : Report}

/-- Where the names of fields are as they should be, nothing is reported at all. -/
theorem eq_none_of_checkKeys {value definition : Node} {given : List (Atom × Data)}
    {report : Report} (h : u.checkKeys value definition given = .ok report)
    (hclean : report.isClean) : report = .none := by
  have hcalls := (only_checkKeys (K := fun _ => False) value definition given).calls report h
  obtain ⟨problems, calls⟩ := report
  obtain rfl : problems = [] := Report.isClean_iff.1 hclean
  obtain rfl : calls = [] := List.eq_nil_iff_forall_not_mem.2 hcalls
  rfl

/-- Compares a value with a type, and appends what is found. -/
def matchesTypeOnto (u : Usage) (value type : Data) (before : Report) : Check :=
  match type with
  | .node reference =>
    match reference.kind with
    | .nonNullType =>
      if value.isOf .nullValue then
        (u.mismatch .null "Argument value is 'NullValue', expected a non-null value." value).onto
          before
      else u.matchesTypeOnto value (reference.content .type) before
    | .listType =>
      let inner := reference.content .type
      match value with
      | .node v =>
        if v.kind = .nullValue then .ok before
        else if v.kind = .listValue then
          (v.content .values).items.attach.foldlM (fun report ⟨item, _⟩ => do
            u.matchesTypeOnto item inner (← (u.checkItem item inner).onto report)) before
        else u.matchesTypeOnto (.node v) inner before
      | d => u.matchesTypeOnto d inner before
    | .namedType =>
      if value.isOf .nullValue then .ok before
      else do
        match ← u.definition? reference with
        | none => return before
        | some definition =>
          match definition.kind with
          | .typeDefinition .scalar => (u.checkScalar value definition).onto before
          | .typeDefinition .enum => (u.checkEnum value definition).onto before
          | .typeDefinition .inputObject =>
            match value with
            | .node v =>
              if v.kind = .objectValue then do
                let given ← keyed (v.content .fields).items
                let after ← (u.checkKeys v definition given).onto before
                if after.problems.length = before.problems.length then
                  (definition.content .fields).items.foldlM (fun report declared => do
                    match field? v (← (← declared.get .name).key) with
                    | none => (u.checkMissing v declared).onto report
                    | some ⟨f, _⟩ =>
                      match _h : f.get .value with
                      | .ok given => u.matchesTypeOnto given (← declared.get .type) report
                      | .error e => throw e) after
                else return after
              else (u.notObject value).onto before
            | _ => (u.notObject value).onto before
          | _ => return before
    | _ => .error (unknownType type)
  | _ => .error (unknownType type)
termination_by (value.size, type.size)
decreasing_by
  · exact Prod.Lex.right _ (reference.size_content_lt .type)
  · exact Prod.Lex.left _ _
      (Nat.lt_of_le_of_lt (Data.size_le_of_mem_items (by assumption)) (v.size_content_lt .values))
  · exact Prod.Lex.right _ (reference.size_content_lt .type)
  · exact Prod.Lex.right _ (reference.size_content_lt .type)
  · exact Prod.Lex.left _ _ (Nat.lt_trans (Data.size_lt_of_get _h) (by assumption))

/-- What is appended is what the comparison finds, for the type of a name, if this is so for all
values within the value. -/
theorem matchesTypeOnto_named {value : Data} {reference : Node} (hk : reference.kind = .namedType)
    (ih : ∀ given type report, given.size < value.size →
      u.matchesTypeOnto given type report = (u.matchesType given type).onto report) :
    u.matchesTypeOnto value (.node reference) before =
      (u.matchesType value (.node reference)).onto before := by
  rw [matchesTypeOnto, matchesType]
  simp only [hk]
  rw [onto_ite]
  refine if_congr Iff.rfl onto_clean.symm ?_
  rw [onto_bind]
  refine bind_congr fun definition => ?_
  cases definition with
  | none => exact onto_clean.symm
  | some definition =>
    dsimp only
    cases definition.kind with
    | typeDefinition k =>
      cases k with
      | scalar => rfl
      | enum => rfl
      | inputObject =>
        cases value with
        | node v =>
          dsimp only
          rw [onto_ite]
          refine if_congr Iff.rfl ?_ rfl
          rw [onto_bind]
          refine bind_congr fun given => (onto_ifClean _ fun report hreport hclean => ?_).symm
          rw [eq_none_of_checkKeys hreport hclean, Report.append_none, onto_each]
          congr 1
          funext report declared
          rw [onto_bind]
          refine bind_congr fun name => ?_
          rw [onto_bind]
          refine bind_congr fun key => ?_
          cases field? v key with
          | none => rfl
          | some f =>
            obtain ⟨f, hf⟩ := f
            dsimp only
            cases hgiven : f.get .value with
            | error e => rfl
            | ok given =>
              dsimp only
              rw [onto_bind]
              exact bind_congr fun type =>
                (ih given type report (Nat.lt_trans (Data.size_lt_of_get hgiven) hf)).symm
        | _ => rfl
      | _ => exact onto_clean.symm
    | _ => exact onto_clean.symm

/-- What is appended is what the comparison finds. The recursion is that of the comparison. -/
theorem matchesTypeOnto_eq (value type : Data) (before : Report) :
    u.matchesTypeOnto value type before = (u.matchesType value type).onto before := by
  cases type with
  | node reference =>
    have hinner := reference.size_content_lt .type
    cases hk : reference.kind with
    | namedType => exact matchesTypeOnto_named hk fun given type report hsize =>
        matchesTypeOnto_eq given type report
    | nonNullType =>
      rw [matchesTypeOnto, matchesType]
      simp only [hk]
      rw [onto_ite]
      exact if_congr Iff.rfl rfl (matchesTypeOnto_eq value (reference.content .type) before)
    | listType =>
      rw [matchesTypeOnto, matchesType]
      simp only [hk]
      cases value with
      | node v =>
        dsimp only
        rw [onto_ite, onto_ite]
        refine if_congr Iff.rfl onto_clean.symm (if_congr Iff.rfl ?_ ?_)
        · rw [onto_each]
          congr 1
          funext report entry
          obtain ⟨item, hitem⟩ := entry
          have hsize := Nat.lt_of_le_of_lt (Data.size_le_of_mem_items hitem)
            (v.size_content_lt .values)
          rw [onto_both]
          exact bind_congr fun report =>
            matchesTypeOnto_eq item (reference.content .type) report
        · exact matchesTypeOnto_eq (.node v) (reference.content .type) before
      | _ => exact matchesTypeOnto_eq _ (reference.content .type) before
    | _ =>
      rw [matchesTypeOnto, matchesType]
      simp only [hk]
      rfl
  | _ => simp only [matchesTypeOnto, matchesType, Check.onto, Check.both]; rfl
termination_by (value.size, type.size)
decreasing_by
  all_goals first
    | exact Prod.Lex.right _ hinner
    | exact Prod.Lex.left _ _ hsize

/-- Compares the value of the argument with a type; the coercer is called if there are no more
problems than before. -/
def checkArgumentOnto (u : Usage) (type : Data) (before : Report) : Check := do
  let value ← u.argument.get .value
  let after ← u.matchesTypeOnto value type before
  if after.problems.length = before.problems.length then (u.coerce value).onto after
  else return after

theorem checkArgumentOnto_eq (type : Data) (before : Report) :
    u.checkArgumentOnto type before = (u.checkArgument type).onto before := by
  rw [checkArgument, onto_bind]
  refine bind_congr fun value => ?_
  rw [matchesTypeOnto_eq]
  refine (onto_ifClean (u.coerce value).onto fun report _ _ => ?_).symm
  exact (Check.both_assoc (.ok before) (.ok report) (u.coerce value)).symm

end Usage

/-! ## Directives -/

namespace Schema

open Check (onto_both onto_each onto_bind)

variable {s : Schema} {element : Node} {elementName directive : Data}

/-- An argument that was given to a directive on an element. -/
def checkGivenOnto (s : Schema) (element : Node) (elementName : Data) (directive : Data)
    (declared : Table Atom Data) (name : Atom) (argument : Data) (before : Report) : Check :=
  match declared.get? name, argument with
  | some declaration, .node argument => do
    Usage.checkArgumentOnto ⟨s.registry, s.wiring, directive, element, elementName, argument⟩
      (← declaration.get .type) before
  | _, _ => do
    let name ← argument.get .name
    (Check.found (.unknownArgument element elementName directive name)).onto before

/-- The arguments of a directive on an element, those that were given and those that are missing. -/
def checkArgumentsOnto (s : Schema) (element : Node) (elementName : Data) (directive : Data)
    (definition : Node) (before : Report) : Check := do
  let name ← directive.get .name
  let declared := Table.ofFirst (← Usage.keyed (definition.content .arguments).items)
  let given := Table.ofLast (← Usage.keyed (← directive.get .arguments).items)
  let after ← given.foldlM (fun report entry =>
    s.checkGivenOnto element elementName name declared entry.1 entry.2 report) before
  declared.foldlM (fun report entry =>
    (checkLacking element elementName name given entry.1 entry.2).onto report) after

/-- A directive applied to an element at a place. -/
def checkDirectiveOnto (s : Schema) (location : Text) (element : Node) (elementName : Data)
    (directive : Data) (before : Report) : Check := do
  let name ← directive.get .name
  match s.registry.directive? (← name.key) with
  | none => (Check.found (.undeclaredDirective element elementName name)).onto before
  | some definition => do
    let allowed ← (definition.content .locations).items.mapM placeName
    let after ← (Check.foundIf (decide (location.capital ∉ allowed))
      (.illegalLocation element elementName name location)).onto before
    s.checkArgumentsOnto element elementName directive definition after

/-- The directives applied to an element at a place. -/
def checkDirectivesOnto (s : Schema) (location : Text) (element : Node) (elementName : Data)
    (directives : List Data) (before : Report) : Check :=
  directives.foldlM (fun report directive =>
    s.checkDirectiveOnto location element elementName directive report) before

theorem checkGivenOnto_eq (declared : Table Atom Data) (name : Atom) (argument : Data)
    (before : Report) :
    s.checkGivenOnto element elementName directive declared name argument before =
      (s.checkGiven element elementName directive declared name argument).onto before := by
  unfold checkGivenOnto checkGiven
  cases declared.get? name with
  | none => exact (onto_bind ..).symm
  | some declaration =>
    cases argument with
    | node argument =>
      refine Eq.trans ?_ (onto_bind ..).symm
      exact bind_congr fun type => Usage.checkArgumentOnto_eq type before
    | _ => exact (onto_bind ..).symm

theorem checkArgumentsOnto_eq (definition : Node) (before : Report) :
    s.checkArgumentsOnto element elementName directive definition before =
      (s.checkArguments element elementName directive definition).onto before := by
  simp only [checkArgumentsOnto, checkArguments, onto_bind, onto_both, onto_each,
    checkGivenOnto_eq]

theorem checkDirectiveOnto_eq (location : Text) (before : Report) :
    s.checkDirectiveOnto location element elementName directive before =
      (s.checkDirective location element elementName directive).onto before := by
  rw [checkDirective, onto_bind]
  refine bind_congr fun name => ?_
  rw [onto_bind]
  refine bind_congr fun key => ?_
  cases s.registry.directive? key with
  | none => rfl
  | some definition =>
    simp only [onto_bind, onto_both, checkArgumentsOnto_eq]

/-- Directives that are checked with a report that is passed along append to it what is found when
they are checked by themselves. -/
theorem checkDirectivesOnto_eq (location : Text) (directives : List Data) (before : Report) :
    s.checkDirectivesOnto location element elementName directives before =
      (s.checkDirectives location element elementName directives).onto before := by
  rw [checkDirectives, onto_each]
  simp only [checkDirectivesOnto, checkDirectiveOnto_eq]

end Schema

end GraphSchema
