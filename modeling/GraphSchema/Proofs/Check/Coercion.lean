import GraphSchema.Proofs.Check.Comparison
import GraphSchema.Proofs.Check.Directive

/-!
# Calls of coercers

Whether a coercer is called depends only on the argument and its value: the argument is declared,
and comparing its value with its type finds nothing. What was found before makes no difference.

## Main definitions

* `Offer`: a value that a directive on an element gives for an argument that is declared.
* `Schema.offers`: the values that are given in a schema, in the order of the check.
* `Schema.coercer?`: the coercer that is called on such a value.
* `Schema.CallsCoercers`: which coercers a check calls, and what it finds by them.

## Main statements

* `Schema.logs_checkArgument`: the calls for one argument.
* `Schema.check_callsCoercers`: the calls for a schema.
-/

namespace GraphSchema

open Check (Logs Only)

/-- The problem is that a coercer turned a value down. -/
def Problem.isCoercion : Problem → Bool
  | badValue .coercion _ _ _ _ _ _ => true
  | _ => false

theorem Usage.Misfits.isCoercion {u : Usage} {p : Problem} (h : u.Misfits p) :
    p.isCoercion = false := by
  obtain ⟨kind, detail, value, hkind, rfl⟩ := h
  cases kind with
  | coercion => exact absurd rfl hkind
  | _ => rfl

/-- A value that a directive on an element gives for an argument, and the type that this argument is
declared with. -/
structure Offer extends Comparison where
  element : Node
  elementName : Data
  directive : Text
  argument : Node

/-- A literal is offered for a reference, as the value of an argument with a name. -/
structure Offer.IsProper (o : Offer) : Prop extends o.toComparison.IsProper where
  hasName : o.argument.HasName
  value_eq : o.argument.get .value = .ok (.node o.value)

namespace Schema

open Node

section Offers

variable (s : Schema)

/-- What a use gives under a name for an argument that is declared. Of arguments of one name that
are given the last counts, and of those that are declared the first. -/
def offer? (definition : Node) (u : Use) (name : Text) : Option Offer := do
  let declared ← firstOf? (definition.childrenAt .arguments) name
  let given ← lastOf? (u.directive.childrenAt .arguments) name
  return ⟨⟨← given.child? .value, ← declared.child? .type⟩, (s.subject u).1, (s.subject u).2,
    u.directive.nameText, given⟩

/-- What a use gives for arguments that are declared, in the order in which their names first
occur. -/
def offersOf (u : Use) : List Offer :=
  match s.registry.directive? (.text u.directive.nameText) with
  | none => []
  | some definition =>
    (namesIn (u.directive.childrenAt .arguments)).filterMap (s.offer? definition u)

/-- What is given in a schema for arguments that are declared, in the order of the check. -/
def offers : List Offer := s.visited.flatMap s.offersOf

/-- The argument of a directive on an element that is checked. -/
def usage (o : Offer) : Usage :=
  ⟨s.registry, s.wiring, .text o.directive, o.element, o.elementName, o.argument⟩

/-- The value is compared with the type. -/
def compare (o : Offer) : Check := (s.usage o).compare o.toComparison

/-- The calls of scalars that comparing the value with the type makes. -/
def readings (o : Offer) : List Call := ((s.compare o).toOption.map Report.calls).getD []

/-- The coercer of the argument, if there is one and comparing the value with the type finds
nothing. -/
def coercer? (o : Offer) : Option Callback :=
  if (s.compare o).toOption.any Report.isClean then
    s.wiring.coercer? o.directive o.argument.nameText
  else none

/-- The call of the coercer. -/
def coercion? (o : Offer) : Option Call := (s.coercer? o).map fun c => c.call (.node o.value)

/-- The problem that the coercer raises, if it does. -/
def refusal? (o : Offer) : Option Problem := do
  match (← s.coercer? o).run (.node o.value) with
  | .ok _ => none
  | .error f => some (.badValue .coercion o.element o.elementName (.text o.directive)
      (.text o.argument.nameText) (.text ("Argument value failed coercion: " ++ f.text))
      (.node o.value))

end Offers

/-- Coercers are called on the values that fit their types, once each and in order, and each one
that turns its value down is reported. -/
structure CallsCoercers (s : Schema) (report : Report) : Prop where
  /-- The check goes through all that the registry holds, declarations of directives apart. -/
  complete : s.declarations.Perm s.registry.elements
  /-- It does so kind by kind, and otherwise in the order in which the registry holds them. -/
  ordered : s.declarations =
    sections.flatMap fun k => s.registry.elements.filter fun n => n.kind = k
  /-- A coercer is called for a value if and only if there is one and the value fits. -/
  coercer?_iff : ∀ o ∈ s.offers, ∀ c, s.coercer? o = some c ↔
    s.registry.Conforms s.wiring o.type o.value ∧
      s.wiring.coercer? o.directive o.argument.nameText = some c
  /-- For each value that is given scalars are called at first, and then its coercer. -/
  calls : report.calls = s.offers.flatMap fun o => s.readings o ++ (s.coercion? o).toList
  readings : ∀ o ∈ s.offers, ∀ call ∈ s.readings o, s.wiring.IsReading call
  /-- The calls of coercers are these, if they can be told from calls of scalars. -/
  coercions : ∀ isCoercer : Text → Bool,
    (∀ call, s.wiring.IsReading call → isCoercer call.label = false) →
    (∀ directive argument c, s.wiring.coercer? directive argument = some c →
      isCoercer c.label = true) →
    report.calls.filter (fun call => isCoercer call.label) = s.offers.filterMap s.coercion?
  /-- Coercers are said to turn values down where they do, and nowhere else. -/
  refusals : report.problems.filter Problem.isCoercion = s.offers.filterMap s.refusal?

variable {s : Schema} {o : Offer} {u : Use}

/-! ## One argument -/

theorem compare_eq (hr : s.registry.WellTyped) (hs : s.wiring.ScalarsReject) (ho : o.IsProper) :
    ∃ report, s.compare o = .ok report ∧ s.readings o = report.calls ∧
      (report.isClean ↔ s.registry.Conforms s.wiring o.type o.value) ∧
      s.coercer? o =
        if report.isClean then s.wiring.coercer? o.directive o.argument.nameText else none := by
  obtain ⟨report, hreport, hclean, -⟩ :=
    (s.usage o).matchesType_clean_iff hr hs ho.value ho.type
  have hcompare : s.compare o = .ok report := hreport
  refine ⟨report, hcompare, ?_, hclean, ?_⟩
  · rw [readings, hcompare]
    rfl
  · rw [coercer?, hcompare]
    rfl

theorem only_compare (o : Offer) :
    Only (s.usage o).Misfits s.wiring.IsReading (s.compare o) :=
  Usage.only_matchesType _ _

/-- The coercer of an argument whose value fits. -/
theorem logs_coerce (hc : s.wiring.CoercersReject) (ho : o.IsProper)
    (hcoercer : s.coercer? o = s.wiring.coercer? o.directive o.argument.nameText) :
    Logs Problem.isCoercion ((s.usage o).coerce (.node o.value)) (s.coercion? o).toList
      (s.refusal? o).toList := by
  have hname : o.argument.name.text? = some o.argument.nameText := by
    rw [ho.hasName.name_eq]
    rfl
  have hlookup : ((s.usage o).directive.text? >>= fun directive =>
      (s.usage o).argument.name.text? >>= fun argument =>
        (s.usage o).wiring.coercer? directive argument) = s.coercer? o := by
    rw [hcoercer]
    simp only [usage, hname]
    rfl
  rw [Usage.coerce, coercion?, refusal?, hlookup]
  cases hfound : s.coercer? o with
  | none => exact Check.logs_clean
  | some c =>
    have hrejects := hc.coercer? (hcoercer ▸ hfound) o.value ho.value
    dsimp only
    cases hrun : c.run (.node o.value) with
    | ok d => exact ⟨_, rfl, rfl, by simp [hrun]⟩
    | error f =>
      dsimp only
      rw [if_pos (hrejects f hrun)]
      refine ⟨_, rfl, rfl, ?_⟩
      simp only [usage, ho.hasName.name_eq, Option.bind_eq_bind, Option.bind_some, hrun]
      rfl

/-- The value of an argument is compared with its type, and its coercer is called if it fits. -/
theorem logs_checkArgument (hr : s.registry.WellTyped) (hs : s.wiring.ScalarsReject)
    (hc : s.wiring.CoercersReject) (ho : o.IsProper) :
    Logs Problem.isCoercion ((s.usage o).checkArgument (.node o.type))
      (s.readings o ++ (s.coercion? o).toList) (s.refusal? o).toList := by
  obtain ⟨report, hreport, hreadings, -, hcoercer⟩ := compare_eq hr hs ho
  have hmisfits : report.problems.filter Problem.isCoercion = [] :=
    List.filter_eq_nil_iff.2 fun p hp => by
      simp [((only_compare o).problems report hreport p hp).isCoercion]
  have hvalue : (s.usage o).argument.get .value = .ok (.node o.value) := ho.value_eq
  have hmatches : (s.usage o).matchesType (.node o.value) (.node o.type) = .ok report := hreport
  rw [Usage.checkArgument, hvalue, ok_bind, hmatches, ok_bind, hreadings]
  split
  · rename_i hclean
    rw [if_pos hclean] at hcoercer
    obtain ⟨added, hadded, hcalls, hrefusal⟩ := logs_coerce hc ho hcoercer
    rw [hadded]
    refine ⟨report ++ added, rfl, congrArg _ hcalls, ?_⟩
    rw [Report.problems_append, List.filter_append, hmisfits, hrefusal, List.nil_append]
  · rename_i hclean
    rw [if_neg hclean] at hcoercer
    rw [coercion?, refusal?, hcoercer]
    exact ⟨report, rfl, (List.append_nil _).symm, hmisfits⟩

/-! ## One directive -/

/-- What a use gives is offered properly. -/
theorem offer?_eq {definition i a : Node} {name : Text} (hdef : definition.WellTyped)
    (hdefk : definition.kind = .directiveDefinition) (hd : u.directive.WellTyped)
    (hk : u.directive.kind = .directive)
    (hi : firstOf? (definition.childrenAt .arguments) name = some i)
    (ha : lastOf? (u.directive.childrenAt .arguments) name = some a) :
    ∃ o : Offer, s.offer? definition u name = some o ∧ o.IsProper ∧
      s.usage o = ⟨s.registry, s.wiring, .text u.directive.nameText, (s.subject u).1,
        (s.subject u).2, a⟩ ∧
      i.get .type = .ok (.node o.type) := by
  obtain ⟨hiwell, hik⟩ := (hdef.directiveDefinition hdefk).1.2 i (mem_of_firstOf? hi).1
  obtain ⟨hawell, hak⟩ := (hd.directive hk).2.2.2 a (mem_of_lastOf? ha).1
  obtain ⟨-, t, htype, ht, href⟩ := hiwell.inputValue hik
  obtain ⟨hname, v, hcontent, hvalue, hv⟩ := hawell.entry (.inr hak)
  refine ⟨⟨⟨v, t⟩, (s.subject u).1, (s.subject u).2, u.directive.nameText, a⟩, ?_,
    ⟨⟨hv, href⟩, hname, hvalue⟩, rfl, ht⟩
  simp [offer?, hi, ha, child?_eq htype, child?_eq hcontent]

section Uses

variable {definition : Node} (hr : s.registry.WellTyped) (hs : s.wiring.ScalarsReject)
  (hc : s.wiring.CoercersReject) (hdef : definition.WellTyped)
  (hdefk : definition.kind = .directiveDefinition) (hd : u.directive.WellTyped)
  (hk : u.directive.kind = .directive)

include hr hs hc hdef hdefk hd hk

/-- The argument that counts of those that a use gives under a name. -/
theorem logs_checkGiven {name : Text} {a : Node}
    (ha : lastOf? (u.directive.childrenAt .arguments) name = some a) :
    Logs Problem.isCoercion (s.checkGiven (s.subject u).1 (s.subject u).2
        (.text u.directive.nameText) (Table.ofFirst (byName (definition.childrenAt .arguments)))
        (.text name) (.node a))
      ((s.offer? definition u name).toList.flatMap fun o => s.readings o ++ (s.coercion? o).toList)
      ((s.offer? definition u name).toList.flatMap fun o => (s.refusal? o).toList) := by
  have hget := get?_ofFirst_byName (definition.childrenAt .arguments) name
  cases hi : firstOf? (definition.childrenAt .arguments) name with
  | none =>
    obtain ⟨hawell, hak⟩ := (hd.directive hk).2.2.2 a (mem_of_lastOf? ha).1
    have hnone : s.offer? definition u name = none := by simp [offer?, hi]
    rw [hi] at hget
    rw [checkGiven_unknown (hawell.entry (.inr hak)).1 hget, hnone]
    exact Check.logs_found rfl
  | some i =>
    obtain ⟨o, ho, hproper, husage, ht⟩ := offer?_eq (s := s) hdef hdefk hd hk hi ha
    rw [hi] at hget
    rw [checkGiven_known hget ht, ← husage, ho]
    simpa using logs_checkArgument hr hs hc hproper

/-- The arguments that a use gives. -/
theorem logs_given :
    Logs Problem.isCoercion
      (Check.each (Table.ofLast (byName (u.directive.childrenAt .arguments))) fun e =>
        s.checkGiven (s.subject u).1 (s.subject u).2 (.text u.directive.nameText)
          (Table.ofFirst (byName (definition.childrenAt .arguments))) e.1 e.2)
      (((namesIn (u.directive.childrenAt .arguments)).filterMap (s.offer? definition u)).flatMap
        fun o => s.readings o ++ (s.coercion? o).toList)
      (((namesIn (u.directive.childrenAt .arguments)).filterMap (s.offer? definition u)).filterMap
        s.refusal?) := by
  rw [each_table _ (keys_ofLast_byName _) (nodup_keys_ofLast _) (get?_ofLast_byName _),
    List.filterMap_eq_flatMap_toList _ (namesIn _), List.filterMap_eq_flatMap_toList,
    List.flatMap_assoc, List.flatMap_assoc]
  refine Logs.each fun name hname => ?_
  obtain ⟨a, ha⟩ := exists_lastOf?_iff.2 hname
  rw [ha]
  exact logs_checkGiven hr hs hc hdef hdefk hd hk ha

end Uses

theorem logs_checkLacking {element i : Node} {elementName directive : Data}
    {given : Table Atom Data} {key : Atom} (hi : i.WellTyped)
    (hik : i.kind = .inputValueDefinition) :
    Logs Problem.isCoercion (checkLacking element elementName directive given key (.node i))
      [] [] := by
  obtain ⟨b, -, hcheck⟩ := checkLacking_eq hi hik
  rw [hcheck]
  exact Check.logs_foundIf rfl

/-- A use calls the coercers of what it gives for arguments that are declared. -/
theorem logs_checkUse (hr : s.registry.WellTyped) (hs : s.wiring.ScalarsReject)
    (hc : s.wiring.CoercersReject) (hu : u ∈ s.visited) :
    Logs Problem.isCoercion (s.checkUse u)
      ((s.offersOf u).flatMap fun o => s.readings o ++ (s.coercion? o).toList)
      ((s.offersOf u).filterMap s.refusal?) := by
  obtain ⟨⟨hd, hk⟩, -⟩ := of_mem_visited hr hu
  obtain ⟨place, -, hcheck⟩ := checkUse_of_mem_visited hr hu
  rw [hcheck, checkDirective_eq hr hd hk, offersOf]
  cases hdef : s.registry.directive? (.text u.directive.nameText) with
  | none => exact Check.logs_found rfl
  | some definition =>
    obtain ⟨hwell, -, hkind⟩ := hr.directive? hdef
    have hlacking : Logs Problem.isCoercion
        (Check.each (Table.ofFirst (byName (definition.childrenAt .arguments))) fun e =>
          checkLacking (s.subject u).1 (s.subject u).2 (.text u.directive.nameText)
            (Table.ofLast (byName (u.directive.childrenAt .arguments))) e.1 e.2) [] [] := by
      refine Logs.each_nil fun e he => ?_
      obtain ⟨i, hi, hiwell, hik⟩ := exists_of_mem_parameters hwell hkind he
      rw [hi]
      exact logs_checkLacking hiwell hik
    dsimp only
    rw [checkArguments_eq hd hk hwell hkind]
    have harguments := (logs_given hr hs hc hwell hkind hd hk).both hlacking
    rw [List.append_nil, List.append_nil] at harguments
    exact Logs.both (Check.logs_foundIf rfl) harguments

/-! ## Whole schemas -/

/-- Declarations of directives are checked without calls. -/
theorem only_checkDefinitions :
    Only (fun p => p.isCoercion = false) (fun _ => False) s.checkDefinitions := by
  have hname : ∀ n, Only (fun p => p.isCoercion = false) (fun _ => False) (checkName n) := by
    refine fun n => .bind fun d _ => ?_
    split
    · exact Check.only_foundIf rfl
    · exact Check.only_error
  refine .each fun d _ => (hname d).both (.each fun i _ => ?_)
  unfold checkDeclaredArgument
  split
  · refine (hname _).both (Only.both ?_ ?_)
    · refine .bind fun t _ => .bind fun n _ => .bind fun k _ => ?_
      split
      · exact Check.only_foundIf rfl
      · exact .bind fun _ _ => Check.only_found rfl
    · exact .bind fun _ _ => Check.only_foundIf rfl
  · exact Check.only_error

theorem isProper_of_mem_offers (hr : s.registry.WellTyped) (ho : o ∈ s.offers) : o.IsProper := by
  obtain ⟨u, hu, ho⟩ := List.mem_flatMap.1 ho
  obtain ⟨⟨hd, hk⟩, -⟩ := of_mem_visited hr hu
  unfold offersOf at ho
  split at ho
  · cases ho
  · rename_i definition hdef
    obtain ⟨hwell, -, hkind⟩ := hr.directive? hdef
    obtain ⟨name, -, ho⟩ := List.mem_filterMap.1 ho
    cases hi : firstOf? (definition.childrenAt .arguments) name with
    | none => simp [offer?, hi] at ho
    | some i =>
      cases ha : lastOf? (u.directive.childrenAt .arguments) name with
      | none => simp [offer?, hi, ha] at ho
      | some a =>
        obtain ⟨p, hp, hproper, -, -⟩ := offer?_eq (s := s) hwell hkind hd hk hi ha
        rw [hp] at ho
        cases ho
        exact hproper

/-- Of the calls those of coercers. -/
theorem filter_calls (os : List Offer) {isCoercer : Text → Bool}
    (hreadings : ∀ o ∈ os, ∀ call ∈ s.readings o, isCoercer call.label = false)
    (hcoercions : ∀ o ∈ os, ∀ call, s.coercion? o = some call → isCoercer call.label = true) :
    (os.flatMap fun o => s.readings o ++ (s.coercion? o).toList).filter
      (fun call => isCoercer call.label) = os.filterMap s.coercion? := by
  rw [List.filter_flatMap, List.filterMap_eq_flatMap_toList]
  refine List.flatMap_congr fun o ho => ?_
  have hnone : (s.readings o).filter (fun call => isCoercer call.label) = [] :=
    List.filter_eq_nil_iff.2 fun call hcall => by simp [hreadings o ho call hcall]
  have hall : (s.coercion? o).toList.filter (fun call => isCoercer call.label) =
      (s.coercion? o).toList :=
    List.filter_eq_self.2 fun call hcall => hcoercions o ho call (Option.mem_toList.1 hcall)
  rw [List.filter_append, hnone, hall, List.nil_append]

/-- The check of a schema calls for each value that is given for a declared argument the coercer of
the argument, if there is one and the value fits, and no other coercers. -/
theorem check_callsCoercers (s : Schema) (hr : s.registry.WellTyped)
    (hs : s.wiring.ScalarsReject) (hc : s.wiring.CoercersReject) :
    ∃ report, s.check = .ok report ∧ s.CallsCoercers report := by
  have hdefinitions : Logs Problem.isCoercion s.checkDefinitions [] [] := by
    have htotal : ∃ report, s.checkDefinitions = .ok report :=
      (counts_checkDefinitions (T := True) hr (fun _ => rfl) fun _ _ => rfl : Check.Counts True
        (fun _ => false) s.checkDefinitions _).total trivial
    obtain ⟨report, hreport⟩ := htotal
    exact only_checkDefinitions.logs (fun _ => id) (fun _ => id) hreport
  have hlogs := (Logs.each fun u hu => logs_checkUse hr hs hc hu).both hdefinitions
  rw [← check_eq hr, List.append_nil, List.append_nil, ← List.flatMap_assoc] at hlogs
  obtain ⟨report, hreport, hcalls, hproblems⟩ := hlogs
  have hreadings : ∀ o ∈ s.offers, ∀ call ∈ s.readings o, s.wiring.IsReading call := by
    intro o ho call hcall
    obtain ⟨compared, hcompared, heq, -⟩ := compare_eq hr hs (isProper_of_mem_offers hr ho)
    rw [heq] at hcall
    exact (only_compare o).calls compared hcompared call hcall
  refine ⟨report, hreport,
    ⟨declarations_perm hr, declarations_eq hr, ?_, hcalls, hreadings, ?_, ?_⟩⟩
  · intro o ho c
    obtain ⟨compared, -, -, hconforms, hcoercer⟩ := compare_eq hr hs (isProper_of_mem_offers hr ho)
    rw [hcoercer, ← hconforms]
    split <;> simp [*]
  · intro isCoercer hscalars hcoercers
    have hcalled : report.calls = s.offers.flatMap fun o =>
        s.readings o ++ (s.coercion? o).toList := hcalls
    rw [hcalled]
    refine filter_calls s.offers (fun o ho call hcall => hscalars call (hreadings o ho call hcall))
      fun o ho call hcall => ?_
    obtain ⟨c, hcoercer, rfl⟩ := Option.map_eq_some_iff.1 hcall
    unfold coercer? at hcoercer
    split at hcoercer
    · exact hcoercers _ _ c hcoercer
    · cases hcoercer
  · rw [hproblems, offers, List.filterMap_flatMap]

/-- A directive with an argument that must be given and one that need not be. -/
def tagDefinition : Grammar.Definition :=
  .directive none "tag" [⟨none, "name", .named "String" true, none, []⟩,
    ⟨none, "size", .named "Int" false, none, []⟩] [⟨"object", by decide⟩] (by simp)

/-- The use of a directive with an argument of a wrong form, one that is not declared, and one that
is given twice. -/
def taggedType : Grammar.Definition :=
  .type none "A" [⟨"tag", [("name", .int "1"), ("size", .boolean true), ("label", .null),
    ("size", .int "7")]⟩] (.object [] [])

/-- Both arguments that are declared have coercers, and one of these turns all values down. -/
def taggedSchema : Schema where
  registry := (Registry.empty.addAll ([tagDefinition, taggedType].map Grammar.Definition.node)).1
  wiring := ⟨[], [("tag", [("name", .accepting "name"),
    ("size", .refusing "size" (.badValue "custom: out of range"))])]⟩

/-- The calls of the check of this schema, whose directive has two coercers. -/
theorem check_callsCoercers_tagged :
    ∃ report, taggedSchema.check = .ok report ∧ taggedSchema.CallsCoercers report := by
  refine check_callsCoercers taggedSchema ?_ ?_ ?_
  · refine Registry.wellTyped_empty.addAll fun n hn => ?_
    obtain ⟨d, -, rfl⟩ := List.mem_map.1 hn
    exact ⟨d.wellTyped_node, d.isDeclaration_kind⟩
  · intro q hq
    cases hq
  · intro entry hentry c hc v _ f hf
    obtain rfl := List.mem_singleton.1 hentry
    rcases List.mem_pair.1 hc with rfl | rfl
    · cases hf
    · cases hf
      rfl

end Schema

end GraphSchema
