import GraphSchema.Proofs.Check.Argument
import GraphSchema.Proofs.Check.Comparison

/-!
# Types that are passed over

Where a value is compared with a type that is not known, or whose values cannot be given, nothing is
found. Such types are found in the declarations of directives instead, but only where an argument is
declared with one, and not in the fields of objects.

## Main definitions

* `Registry.Skips`: the types that are passed over.
* `Registry.Declares`: the types of arguments of declared directives.
* `Schema.Gives`: a use of a directive gives a value for an argument.
* `Schema.Compares`: a value is compared with the type of a name.
* `Problem.namesType`: the problem is that a type is not known or cannot be given.

## Main statements

* `Schema.includes_of_gives`: the values that are given are compared with types.
* `Schema.exists_namesType_iff`: which types that are passed over are reported.
* `Schema.skipped_reported_iff`: when all types are reported that are passed over.
-/

namespace GraphSchema

open Check (Counts Includes)

/-- The problem is that the type of a name is not known, or that its values cannot be given. -/
def Problem.namesType (name : Text) : Problem → Bool
  | missingType type _ _ => type.text? = some name
  | notInputType reference _ => reference.nameText = name
  | _ => false

theorem Problem.namesType_eq_false {name : Text} {p : Problem} (h : p.isOfArgument) :
    p.namesType name = false := by
  cases p <;> first | rfl | cases h

namespace Registry

/-- The type of a name is not known, or its values cannot be given as arguments. -/
def Skips (r : Registry) (name : Text) : Prop := r.isInputType (.text name) = false

/-- An argument of a declared directive has the type of a name, in lists or not. -/
def Declares (r : Registry) (name : Text) : Prop := ∃ i ∈ r.parameters, i.baseType.nameText = name

end Registry

namespace Schema

open Node

/-- A use of a directive gives a value for an argument that is declared. Of arguments of one name
that are declared the first counts, of those that are given the last. -/
structure Gives (s : Schema) (u : Use) (declared given : Node) : Prop where
  isUse : u ∈ s.registry.elements.flatMap (Node.uses .document)
  isDeclared : ∃ definition, s.registry.directive? (.text u.directive.nameText) = some definition ∧
    (definition.childrenAt .arguments).find? (fun i => i.nameText = given.nameText) = some declared
  isGiven : (u.directive.childrenAt .arguments).reverse.find?
    (fun a => a.nameText = given.nameText) = some given

/-- A value that is not null is compared with the type of a name; it is given for an argument of a
directive, or it is part of such a value, and if so it may be a part of an object. -/
def Compares (s : Schema) (enters : Bool) (name : Text) : Prop :=
  ∃ u declared given first last, s.Gives u declared given ∧
    declared.child? .type = some first.type ∧ given.child? .value = some first.value ∧
    s.registry.Leads enters first last ∧ last.type.kind = .namedType ∧
    last.type.nameText = name ∧ last.value.kind ≠ .nullValue

variable {T : Prop} {s : Schema} {name : Text} {u : Use} {declared given d i : Node}

/-! ## Values that are given -/

theorem Gives.wellTyped (hr : s.registry.WellTyped) (h : s.Gives u declared given) :
    (declared.WellTyped ∧ declared.kind = .inputValueDefinition ∧
      declared ∈ s.registry.parameters) ∧
    given.WellTyped ∧ given.kind = .argument := by
  obtain ⟨⟨hd, hk⟩, -⟩ := of_mem_visited hr ((visited_perm hr).mem_iff.2 h.isUse)
  obtain ⟨definition, hdef, hfind⟩ := h.isDeclared
  have hentry := hr.directive? hdef
  have hdeclared := List.mem_of_find?_eq_some hfind
  have hgiven := List.mem_reverse.1 (List.mem_of_find?_eq_some h.isGiven)
  obtain ⟨hwell, hkind⟩ :=
    (hentry.wellTyped.directiveDefinition hentry.kind).1.2 declared hdeclared
  refine ⟨⟨hwell, hkind, ?_⟩, (hd.directive hk).2.2.2 given hgiven⟩
  have hmem : definition ∈ s.registry.directives.values :=
    List.mem_map.2 ⟨_, Table.mem_of_get? hdef, rfl⟩
  exact List.mem_flatMap.2 ⟨definition, hmem, hdeclared⟩

/-- What is first compared are literals with references. -/
theorem Gives.isProper (hr : s.registry.WellTyped) (h : s.Gives u declared given) {c : Comparison}
    (htype : declared.child? .type = some c.type) (hvalue : given.child? .value = some c.value) :
    c.IsProper := by
  obtain ⟨⟨hi, hik, -⟩, ha, hak⟩ := h.wellTyped hr
  obtain ⟨-, t, ht, -, href⟩ := hi.inputValue hik
  obtain ⟨-, v, hv, -, hlit⟩ := ha.entry (.inr hak)
  rw [child?_eq ht] at htype
  rw [child?_eq hv] at hvalue
  cases htype
  cases hvalue
  exact ⟨hlit, href⟩

/-- The value of an argument is compared with its type before the coercer is called. -/
theorem includes_checkArgument {usage : Usage} {c : Comparison}
    (h : usage.argument.get .value = .ok (.node c.value)) :
    (usage.checkArgument (.node c.type)).Includes (usage.compare c) := by
  intro report hreport
  rw [Usage.checkArgument, h, ok_bind] at hreport
  unfold Usage.compare
  cases hmatch : usage.matchesType (.node c.value) (.node c.type) with
  | error f =>
    rw [hmatch] at hreport
    cases hreport
  | ok part =>
    refine ⟨part, rfl, ?_⟩
    rw [hmatch, ok_bind] at hreport
    split at hreport
    · cases hcoerce : usage.coerce (.node c.value) with
      | error f =>
        rw [hcoerce] at hreport
        cases hreport
      | ok rest =>
        rw [hcoerce] at hreport
        cases hreport
        exact List.subset_append_left _ _
    · cases hreport
      exact List.Subset.refl _

/-- Each value that is given for an argument is compared with its type. -/
theorem includes_of_gives (hr : s.registry.WellTyped) (h : s.Gives u declared given)
    {c : Comparison} (htype : declared.child? .type = some c.type)
    (hvalue : given.child? .value = some c.value) :
    ∃ usage : Usage, usage.registry = s.registry ∧ usage.wiring = s.wiring ∧
      s.check.Includes (usage.compare c) := by
  have hu : u ∈ s.visited := (visited_perm hr).mem_iff.2 h.isUse
  obtain ⟨⟨hd, hdk⟩, -⟩ := of_mem_visited hr hu
  obtain ⟨place, -, hcheck⟩ := checkUse_of_mem_visited hr hu
  obtain ⟨definition, hdef, hdeclared⟩ := h.isDeclared
  have hentry := hr.directive? hdef
  obtain ⟨⟨hi, hik, -⟩, ha, hak⟩ := h.wellTyped hr
  obtain ⟨-, t, ht, htget, -⟩ := hi.inputValue hik
  obtain ⟨-, v, hv, hvget, -⟩ := ha.entry (.inr hak)
  rw [child?_eq ht, Option.some.injEq] at htype
  rw [child?_eq hv, Option.some.injEq] at hvalue
  let usage : Usage := ⟨s.registry, s.wiring, .text u.directive.nameText, (s.subject u).1,
    (s.subject u).2, given⟩
  refine ⟨usage, rfl, rfl, ?_⟩
  -- From the schema down to the argument, each check carries out the next one.
  have huse : s.check.Includes (s.checkUse u) := by
    rw [check_eq hr]
    exact (Check.includes_both _ _).1.trans (Check.includes_each hu)
  have harguments : (s.checkUse u).Includes
      (s.checkArguments (s.subject u).1 (s.subject u).2 (.node u.directive) definition) := by
    rw [hcheck, checkDirective_eq hr hd hdk, hdef]
    exact (Check.includes_both _ _).2
  let declarations := Table.ofFirst
    ((definition.childrenAt .arguments).map fun i => (Atom.text i.nameText, Data.node i))
  let checked := s.checkGiven (s.subject u).1 (s.subject u).2 (.text u.directive.nameText)
    declarations (.text given.nameText) (.node given)
  have hgiven : (s.checkArguments (s.subject u).1 (s.subject u).2 (.node u.directive)
      definition).Includes checked := by
    have hmem : (Atom.text given.nameText, Data.node given) ∈ Table.ofLast
        ((u.directive.childrenAt .arguments).map fun a => (Atom.text a.nameText, Data.node a)) :=
      Table.mem_of_get? (by rw [get?_ofLast_named, h.isGiven]; rfl)
    rw [checkArguments_eq hd hdk hentry.wellTyped hentry.kind]
    exact (Check.includes_both _ _).1.trans (Check.includes_each hmem)
  have hargument : checked = usage.checkArgument (.node c.type) := by
    have hget := get?_ofFirst_named (definition.childrenAt .arguments) given.nameText
    rw [hdeclared, Option.map_some] at hget
    exact (checkGiven_known hget htget).trans (by rw [htype])
  rw [hargument] at hgiven
  rw [hvalue] at hvget
  exact ((huse.trans harguments).trans hgiven).trans (includes_checkArgument hvget)

/-- Whatever is compared with types is compared when the schema is checked. -/
theorem includes_of_leads (hr : s.registry.WellTyped) (h : s.Gives u declared given)
    {first last : Comparison} {enters : Bool} (htype : declared.child? .type = some first.type)
    (hvalue : given.child? .value = some first.value)
    (hleads : s.registry.Leads enters first last) :
    ∃ usage : Usage, usage.registry = s.registry ∧ usage.wiring = s.wiring ∧
      s.check.Includes (usage.compare last) := by
  obtain ⟨usage, hregistry, hwiring, hfirst⟩ := includes_of_gives hr h htype hvalue
  refine ⟨usage, hregistry, hwiring, hfirst.trans ?_⟩
  rw [← hregistry] at hr hleads
  exact Usage.includes_of_leads hr hleads (h.isProper (hregistry ▸ hr) htype hvalue)

/-! ## Types that are reported -/

/-- What is wrong with the type of an argument is about the type of a name that is passed over, if
the argument has this type. -/
theorem any_typeProblem?_iff (h : s.registry.Skips name) :
    (∃ p, s.typeProblem? i = some p ∧ p.namesType name) ↔ i.baseType.nameText = name := by
  unfold typeProblem?
  cases htype : s.registry.type? (.text i.baseType.nameText) with
  | none => simp [Problem.namesType, Data.text?]
  | some definition =>
    simp only
    split
    · rename_i hinput
      refine iff_of_false (by simp) ?_
      intro hname
      rw [Registry.Skips, Registry.isInputType, ← hname, htype] at h
      simp [hinput] at h
    · simp [Problem.namesType]

/-- No problems of the kind are found where directives are used. -/
theorem counts_namesType (name : Text) (hr : s.registry.WellTyped)
    (hw : T → s.wiring.ScalarsReject ∧ s.wiring.CoercersReject) :
    Counts T (Problem.namesType name) s.check
      ((s.registry.parameters.filterMap s.typeProblem?).countP (Problem.namesType name)) := by
  have hdefinitions : Counts T (Problem.namesType name) s.checkDefinitions
      ((s.registry.parameters.filterMap s.typeProblem?).countP (Problem.namesType name)) :=
    counts_checkDefinitions hr (fun _ => rfl) fun _ _ => rfl
  have huses : Counts T (Problem.namesType name) (Check.each s.visited s.checkUse) 0 := by
    refine Check.counts_each_zero fun u hu => ?_
    obtain ⟨⟨hd, hk⟩, -⟩ := of_mem_visited hr hu
    obtain ⟨place, -, hcheck⟩ := checkUse_of_mem_visited hr hu
    rw [hcheck]
    refine (counts_checkDirective hr hw (fun p => Problem.namesType_eq_false) hd hk).of_eq ?_
    split <;> simp [Problem.namesType]
  rw [check_eq hr]
  exact (huses.both hdefinitions).of_eq (Nat.zero_add _)

/-- A type that is passed over is reported if and only if an argument of a declared directive has
it. -/
theorem exists_namesType_iff (hr : s.registry.WellTyped) (h : s.registry.Skips name)
    {report : Report} (hreport : s.check = .ok report) :
    (∃ p ∈ report.problems, p.namesType name) ↔ s.registry.Declares name := by
  have hcount := (counts_namesType (T := False) name hr False.elim).sound report hreport
  rw [← List.countP_pos_iff, hcount, List.countP_pos_iff]
  constructor
  · intro hreported
    obtain ⟨p, hp, hnames⟩ := hreported
    obtain ⟨i, hi, hproblem⟩ := List.mem_filterMap.1 hp
    exact ⟨i, hi, (any_typeProblem?_iff h).1 ⟨p, hproblem, hnames⟩⟩
  · intro hdeclares
    obtain ⟨i, hi, hname⟩ := hdeclares
    obtain ⟨p, hproblem, hnames⟩ := (any_typeProblem?_iff h).2 hname
    exact ⟨p, List.mem_filterMap.2 ⟨i, hi, hproblem⟩, hnames⟩

/-- A type with which a value is compared that is not part of an object is the type of an
argument. -/
theorem declares_of_compares (hr : s.registry.WellTyped) (h : s.Compares false name) :
    s.registry.Declares name := by
  obtain ⟨u, declared, given, first, last, hgives, htype, -, hleads, hk, hname, -⟩ := h
  refine ⟨declared, (hgives.wellTyped hr).1.2.2, ?_⟩
  have hinner := hleads.innermost_eq rfl
  have hlast : last.type.innermost = .node last.type := by
    rw [Node.innermost, if_neg (by simp [hk])]
  have hbase : (declared.content .type).innermost = .node last.type := by
    rw [content_eq_of_child? htype]
    exact hinner.trans hlast
  rw [Node.baseType, hbase]
  exact hname

/-- When a schema, such as that of a document, is checked, a type that is passed over is reported if
and only if an argument of a declared directive has it. So all types that are passed over where
values are compared with them are reported if and only if those with which parts of objects are
compared are types of arguments of declared directives as well. -/
theorem skipped_reported_iff (s : Schema) (hr : s.registry.WellTyped) :
    (∀ report, s.check = .ok report →
      (∀ name, s.registry.Skips name →
        ((∃ p ∈ report.problems, p.namesType name) ↔ s.registry.Declares name)) ∧
      ((∀ name, s.registry.Skips name → (∃ enters, s.Compares enters name) →
          ∃ p ∈ report.problems, p.namesType name) ↔
        ∀ name, s.registry.Skips name → s.Compares true name → s.registry.Declares name)) ∧
    (s.wiring.ScalarsReject → s.wiring.CoercersReject → ∃ report, s.check = .ok report) := by
  refine ⟨fun report hreport => ⟨fun name h => exists_namesType_iff hr h hreport, ?_⟩, ?_⟩
  · constructor
    · intro hall name h hcompares
      exact (exists_namesType_iff hr h hreport).1 (hall name h ⟨true, hcompares⟩)
    · intro hall name h hcompares
      obtain ⟨enters, hcompares⟩ := hcompares
      apply (exists_namesType_iff hr h hreport).2
      cases enters with
      | false => exact declares_of_compares hr hcompares
      | true => exact hall name h hcompares
  · intro hscalars hcoercers
    exact (counts_namesType (T := s.wiring.ScalarsReject ∧ s.wiring.CoercersReject) [] hr
      id).total ⟨hscalars, hcoercers⟩

/-- A document in which a value is compared with the type of a field that is not known. -/
def fieldText : Text := "input I { f: X } directive @d(a: I) on OBJECT type T @d(a: {f: 1})"

theorem exists_parse_fieldText :
    ∃ document, (Parser.Document.ofText fieldText none true).parse = .ok document :=
  exists_of_isOk (by decide +kernel)

/-- The schema of this document, without scalars and coercers from outside. -/
theorem skipped_reported_iff_fieldText :
    ∃ document, (Parser.Document.ofText fieldText none true).parse = .ok document ∧
      let s : Schema := ⟨(Registry.empty.addDocument document).1, .empty⟩
      (∀ report, s.check = .ok report →
        (∀ name, s.registry.Skips name →
          ((∃ p ∈ report.problems, p.namesType name) ↔ s.registry.Declares name)) ∧
        ((∀ name, s.registry.Skips name → (∃ enters, s.Compares enters name) →
            ∃ p ∈ report.problems, p.namesType name) ↔
          ∀ name, s.registry.Skips name → s.Compares true name → s.registry.Declares name)) ∧
      (s.wiring.ScalarsReject → s.wiring.CoercersReject → ∃ report, s.check = .ok report) := by
  obtain ⟨document, hparse⟩ := exists_parse_fieldText
  exact ⟨document, hparse, skipped_reported_iff ⟨(Registry.empty.addDocument document).1, .empty⟩
    (Registry.OfDocument.wellTyped ⟨_, _, _, document, hparse, rfl⟩)⟩

end Schema

end GraphSchema
