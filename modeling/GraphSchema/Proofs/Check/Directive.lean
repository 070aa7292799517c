import GraphSchema.Proofs.Check.Argument
import GraphSchema.Proofs.Check.Onto
import GraphSchema.Proofs.Grammar.WellTyped

/-!
# The directives of an element

What is found in the directives that are applied to one element. They are checked one after the
other, each in three steps: where it stands, the arguments that it is given, and the arguments that
it lacks. No step keeps a later one from being carried out. Of arguments of one name that are given
the last counts, and of those that are declared the first, both in the place of the first one.

## Main definitions

* `Node.namesIn`, `Node.firstOf?`, `Node.lastOf?`: the names of nodes, and the nodes that count.
* `Schema.Takes`: an argument that is given fits one that is declared.
* `Schema.Suits`: a directive suits its declaration and the place where it stands.
* `Schema.FoundGiven`, `Schema.FoundDeclared`, `Schema.FoundDirective`: what is found in an argument
  that is given, in one that is declared, and in a directive.

## Main statements

* `Schema.finds_checkDirective`: what is found in one directive.
* `Schema.checkDirectives_groups`: what is found in the directives of an element.
-/

namespace GraphSchema

namespace Node

/-- The names of nodes in the order in which they first occur. -/
def namesIn (ns : List Node) : List Text := (ns.map nameText).eraseDups

/-- The first node of a name. -/
def firstOf? (ns : List Node) (name : Text) : Option Node := ns.find? fun n => n.nameText = name

/-- The last node of a name. -/
def lastOf? (ns : List Node) (name : Text) : Option Node :=
  ns.reverse.find? fun n => n.nameText = name

end Node

namespace Schema

open Node
open Check (Finds)

/-- The value of an argument is a value of the type that is declared, and the coercer of the
argument takes it. -/
def Takes (s : Schema) (directive : Text) (declared given : Node) : Prop :=
  ∃ type value, declared.child? .type = some type ∧ given.child? .value = some value ∧
    s.registry.Conforms s.wiring type value ∧ s.wiring.Admits directive given.nameText value

/-- A directive stands where its declaration allows it, ignoring case, its arguments are declared
and fit, and none that is required is missing. -/
structure Suits (s : Schema) (location : Text) (definition d : Node) : Prop where
  place : location.capital ∈ (definition.childrenAt .locations).map fun l => l.nameText.capital
  known : ∀ a ∈ d.childrenAt .arguments,
    ∃ i ∈ definition.childrenAt .arguments, i.nameText = a.nameText
  fits : ∀ name declared given, firstOf? (definition.childrenAt .arguments) name = some declared →
    lastOf? (d.childrenAt .arguments) name = some given → s.Takes d.nameText declared given
  given : ∀ name declared, firstOf? (definition.childrenAt .arguments) name = some declared →
    declared.IsRequired → ∃ a ∈ d.childrenAt .arguments, a.nameText = name

section Found

variable (s : Schema) (location : Text) (element : Node) (elementName : Data) (definition d : Node)

/-- What is found under the name of an argument that is given: that it is unknown, nothing, or
that its value does not fit. -/
inductive FoundGiven (name : Text) : List Problem → Prop
  | unknown (h : firstOf? (definition.childrenAt .arguments) name = none) :
      FoundGiven name [.unknownArgument element elementName (.text d.nameText) (.text name)]
  | fitting {declared given : Node}
      (hdeclared : firstOf? (definition.childrenAt .arguments) name = some declared)
      (hgiven : lastOf? (d.childrenAt .arguments) name = some given)
      (h : s.Takes d.nameText declared given) : FoundGiven name []
  | unfit {declared given : Node} {ps : List Problem}
      (hdeclared : firstOf? (definition.childrenAt .arguments) name = some declared)
      (hgiven : lastOf? (d.childrenAt .arguments) name = some given)
      (h : ¬s.Takes d.nameText declared given) (hne : ps ≠ [])
      (hall : ∀ p ∈ ps, ∃ kind detail value,
        p = .badValue kind element elementName (.text d.nameText) (.text name) detail value) :
      FoundGiven name ps

/-- What is found under the name of an argument that is declared: that it is missing, or nothing. -/
inductive FoundDeclared (name : Text) : List Problem → Prop
  | missing {declared : Node}
      (hdeclared : firstOf? (definition.childrenAt .arguments) name = some declared)
      (hrequired : declared.IsRequired) (h : lastOf? (d.childrenAt .arguments) name = none) :
      FoundDeclared name [.missingArgument element elementName (.text d.nameText) (.text name)]
  | lacking {declared : Node}
      (hdeclared : firstOf? (definition.childrenAt .arguments) name = some declared)
      (h : declared.IsRequired → lastOf? (d.childrenAt .arguments) name ≠ none) :
      FoundDeclared name []

/-- What is found in a directive: that it is not declared; or else that it stands in a wrong place,
then what is found in the arguments that are given, and then which ones are missing. -/
inductive FoundDirective : List Problem → Prop
  | undeclared (h : s.registry.directive? (.text d.nameText) = none) :
      FoundDirective [.undeclaredDirective element elementName (.text d.nameText)]
  | declared {definition : Node} {given missing : List (List Problem)}
      (h : s.registry.directive? (.text d.nameText) = some definition)
      (hgiven : (namesIn (d.childrenAt .arguments)).Forall₂
        (s.FoundGiven element elementName definition d) given)
      (hmissing : (namesIn (definition.childrenAt .arguments)).Forall₂
        (FoundDeclared element elementName definition d) missing) :
      FoundDirective ((if location.capital ∈ (definition.childrenAt .locations).map
          (fun l => l.nameText.capital) then []
        else [.illegalLocation element elementName (.text d.nameText) location]) ++
        given.flatten ++ missing.flatten)

end Found

variable {T : Prop} {s : Schema} {element definition d : Node} {elementName : Data} {name : Text}
  {ns : List Node} {e : Atom × Data}

/-! ## Arguments by their names -/

theorem mem_namesIn : name ∈ namesIn ns ↔ ∃ n ∈ ns, n.nameText = name := by
  rw [namesIn, List.mem_eraseDups, List.mem_map]

theorem mem_of_firstOf? {n : Node} (h : firstOf? ns name = some n) : n ∈ ns ∧ n.nameText = name :=
  ⟨List.mem_of_find?_eq_some h, by simpa using List.find?_some h⟩

theorem mem_of_lastOf? {n : Node} (h : lastOf? ns name = some n) : n ∈ ns ∧ n.nameText = name :=
  ⟨List.mem_reverse.1 (List.mem_of_find?_eq_some h), by simpa using List.find?_some h⟩

theorem exists_firstOf?_iff : (∃ n, firstOf? ns name = some n) ↔ name ∈ namesIn ns := by
  rw [mem_namesIn, ← Option.isSome_iff_exists, firstOf?, List.find?_isSome]
  simp

theorem exists_lastOf?_iff : (∃ n, lastOf? ns name = some n) ↔ name ∈ namesIn ns := by
  rw [mem_namesIn, ← Option.isSome_iff_exists, lastOf?, List.find?_isSome]
  simp

/-- Nodes under their names. -/
def byName (ns : List Node) : List (Atom × Data) := ns.map fun n => (.text n.nameText, .node n)

theorem eraseDups_byName (ns : List Node) :
    ((byName ns).map Prod.fst).eraseDups = (namesIn ns).map .text := by
  rw [namesIn, ← Table.eraseDups_map fun a b h => Atom.text.inj h, List.map_map, byName,
    List.map_map]
  rfl

theorem keys_ofFirst_byName (ns : List Node) :
    (Table.ofFirst (byName ns)).keys = (namesIn ns).map .text := by
  rw [Table.keys_ofFirst, eraseDups_byName]

theorem keys_ofLast_byName (ns : List Node) :
    (Table.ofLast (byName ns)).keys = (namesIn ns).map .text := by
  rw [Table.keys_ofLast, eraseDups_byName]

theorem nodup_keys_ofFirst (ns : List Node) : (Table.ofFirst (byName ns)).keys.Nodup :=
  Table.keys_ofFirst (byName ns) ▸ Table.nodup_eraseDups _

theorem nodup_keys_ofLast (ns : List Node) : (Table.ofLast (byName ns)).keys.Nodup :=
  Table.keys_ofLast (byName ns) ▸ Table.nodup_eraseDups _

theorem get?_ofFirst_byName (ns : List Node) (name : Text) :
    (Table.ofFirst (byName ns)).get? (.text name) = (firstOf? ns name).map .node :=
  get?_ofFirst_named ns name

theorem get?_ofLast_byName (ns : List Node) (name : Text) :
    (Table.ofLast (byName ns)).get? (.text name) = (lastOf? ns name).map .node :=
  get?_ofLast_named ns name

/-- Checking nodes that count under their names is checking names, one after the other. -/
theorem each_table {t : Table Atom Data} (check : Atom × Data → Check) {names : List Text}
    {pick : Text → Option Node} (hkeys : t.keys = names.map .text) (hnodup : t.keys.Nodup)
    (hget : ∀ name, t.get? (.text name) = (pick name).map .node) :
    Check.each t check = Check.each names fun name =>
      match pick name with
      | none => Check.clean
      | some n => check (.text name, .node n) := by
  have hentry : ∀ e ∈ t, ∀ name, e.1 = .text name →
      ∃ n, pick name = some n ∧ e = (.text name, .node n) := by
    intro e he name hname
    have hvalue := Table.get?_of_mem hnodup he
    rw [hname, hget, Option.map_eq_some_iff] at hvalue
    obtain ⟨n, hn, hnode⟩ := hvalue
    exact ⟨n, hn, Prod.ext hname hnode.symm⟩
  clear hnodup hget
  induction t generalizing names with
  | nil =>
    rw [List.map_eq_nil_iff.1 hkeys.symm]
    rfl
  | cons e t ih =>
    obtain ⟨name, names, rfl, hname, hnames⟩ := List.map_eq_cons_iff.1 hkeys.symm
    obtain ⟨n, hn, rfl⟩ := hentry e List.mem_cons_self name hname.symm
    rw [Check.each_cons, Check.each_cons, hn,
      ih hnames.symm fun e he => hentry e (List.mem_cons_of_mem _ he)]

/-- What is found in nodes that count under their names comes in groups, one for each name. -/
theorem finds_each_table {t : Table Atom Data} {check : Atom × Data → Check} {names : List Text}
    {pick : Text → Option Node} {S : Text → List Problem → Prop}
    (hkeys : t.keys = names.map .text) (hnodup : t.keys.Nodup)
    (hget : ∀ name, t.get? (.text name) = (pick name).map .node)
    (h : ∀ name n, pick name = some n → Finds T (check (.text name, .node n)) (S name)) :
    Finds T (Check.each t check) fun ps => ∃ groups, ps = groups.flatten ∧
      names.Forall₂ S groups := by
  rw [each_table check hkeys hnodup hget]
  refine Finds.each fun name hname => ?_
  have hkey : Atom.text name ∈ t.keys := hkeys ▸ List.mem_map_of_mem hname
  have hsome := Table.mem_keys_iff.1 hkey
  rw [hget, Option.isSome_map] at hsome
  obtain ⟨n, hn⟩ := Option.isSome_iff_exists.1 hsome
  rw [hn]
  exact h name n hn

/-! ## What is found -/

/-- The value of an argument is checked as the argument is said to be taken. -/
theorem takes_iff {i a t v : Node} (ha : a.HasName) (htype : i.content .type = .node t)
    (hvalue : a.content .value = .node v) : s.Takes d.nameText i a ↔
      s.registry.Conforms s.wiring t v ∧
        Usage.Admits ⟨s.registry, s.wiring, .text d.nameText, element, elementName, a⟩ v := by
  have hadmits : Usage.Admits ⟨s.registry, s.wiring, .text d.nameText, element, elementName, a⟩ v ↔
      s.wiring.Admits d.nameText a.nameText v := by
    simp [Usage.Admits, ha.name_eq, Data.text?]
  rw [hadmits, Takes, child?_eq htype, child?_eq hvalue]
  simp

/-- The argument that counts of those that are given under a name. -/
theorem finds_checkGiven {a : Node} (hr : s.registry.WellTyped)
    (hw : T → s.wiring.ScalarsReject ∧ s.wiring.CoercersReject)
    (hdef : definition.WellTyped) (hdefk : definition.kind = .directiveDefinition)
    (hwell : a.WellTyped) (hak : a.kind = .argument)
    (ha : lastOf? (d.childrenAt .arguments) name = some a) :
    Finds T (s.checkGiven element elementName (.text d.nameText)
      (Table.ofFirst (byName (definition.childrenAt .arguments))) (.text name) (.node a))
      (s.FoundGiven element elementName definition d name) := by
  obtain ⟨-, rfl⟩ := mem_of_lastOf? ha
  obtain ⟨haname, v, hcontent, hvalue, hv⟩ := hwell.entry (.inr hak)
  have hget := get?_ofFirst_byName (definition.childrenAt .arguments) a.nameText
  cases hi : firstOf? (definition.childrenAt .arguments) a.nameText with
  | none =>
    rw [hi] at hget
    rw [checkGiven_unknown haname hget]
    exact Check.finds_ok (.unknown hi)
  | some i =>
    obtain ⟨hi', hik⟩ := (hdef.directiveDefinition hdefk).1.2 i (mem_of_firstOf? hi).1
    obtain ⟨-, t, htype, ht, href⟩ := hi'.inputValue hik
    rw [hi] at hget
    rw [checkGiven_known hget ht]
    refine ((Usage.decides_checkArgument hr hw hvalue hv href).only
      (Usage.only_checkArgument _)).imp fun ps hps => ?_
    obtain ⟨⟨hiff, -⟩, hall⟩ := hps
    rw [← takes_iff haname htype hcontent] at hiff
    by_cases hfits : s.Takes d.nameText i a
    · rw [hiff.2 hfits]
      exact .fitting hi ha hfits
    · refine .unfit hi ha hfits (mt hiff.1 hfits) fun p hp => ?_
      obtain ⟨kind, detail, value, rfl⟩ := hall p hp
      exact ⟨kind, detail, value, by rw [haname.name_eq]⟩

/-- The argument that counts of those that are declared under a name. -/
theorem finds_checkLacking {i : Node} (hwell : i.WellTyped) (hik : i.kind = .inputValueDefinition)
    (hi : firstOf? (definition.childrenAt .arguments) name = some i) :
    Finds T (checkLacking element elementName (.text d.nameText)
      (Table.ofLast (byName (d.childrenAt .arguments))) (.text name) (.node i))
      (FoundDeclared element elementName definition d name) := by
  obtain ⟨-, rfl⟩ := mem_of_firstOf? hi
  obtain ⟨b, hrequired, hcheck⟩ := checkLacking_eq hwell hik
  rw [hcheck, Table.has, get?_ofLast_byName]
  refine (Check.finds_foundIf _ _).imp ?_
  rintro _ rfl
  cases ha : lastOf? (d.childrenAt .arguments) i.nameText with
  | none =>
    cases b with
    | true => exact .missing hi (hrequired.1 rfl) ha
    | false => exact .lacking hi fun h => absurd (hrequired.2 h) (by simp)
  | some a =>
    rw [Option.map_some, Option.isSome_some, Bool.not_true, Bool.and_false]
    exact .lacking hi fun _ => by simp [ha]

/-- The arguments of a directive whose declaration is known. -/
theorem finds_checkArguments (hr : s.registry.WellTyped)
    (hw : T → s.wiring.ScalarsReject ∧ s.wiring.CoercersReject) (hd : d.WellTyped)
    (hdk : d.kind = .directive) (hdef : definition.WellTyped)
    (hdefk : definition.kind = .directiveDefinition) :
    Finds T (s.checkArguments element elementName (.node d) definition) fun ps =>
      ∃ given missing, ps = given.flatten ++ missing.flatten ∧
        (namesIn (d.childrenAt .arguments)).Forall₂
          (s.FoundGiven element elementName definition d) given ∧
        (namesIn (definition.childrenAt .arguments)).Forall₂
          (FoundDeclared element elementName definition d) missing := by
  obtain ⟨-, -, -, hgiven⟩ := hd.directive hdk
  have hdeclared := (hdef.directiveDefinition hdefk).1.2
  rw [checkArguments_eq hd hdk hdef hdefk]
  refine Finds.both
    (finds_each_table (S := s.FoundGiven element elementName definition d) (keys_ofLast_byName _)
      (nodup_keys_ofLast _) (get?_ofLast_byName _) fun name a ha => ?_)
    (finds_each_table (S := FoundDeclared element elementName definition d) (keys_ofFirst_byName _)
      (nodup_keys_ofFirst _) (get?_ofFirst_byName _) fun name i hi => ?_) ?_
  · obtain ⟨hwell, hak⟩ := hgiven a (mem_of_lastOf? ha).1
    exact finds_checkGiven hr hw hdef hdefk hwell hak ha
  · obtain ⟨hwell, hik⟩ := hdeclared i (mem_of_firstOf? hi).1
    exact finds_checkLacking hwell hik hi
  · rintro _ _ ⟨given, rfl, hgiven⟩ ⟨missing, rfl, hmissing⟩
    exact ⟨given, missing, rfl, hgiven, hmissing⟩

/-- The directive, where it stands and with its arguments. -/
theorem finds_checkDirective {location : Text} (hr : s.registry.WellTyped)
    (hw : T → s.wiring.ScalarsReject ∧ s.wiring.CoercersReject) (hd : d.WellTyped)
    (hdk : d.kind = .directive) :
    Finds T (s.checkDirective location element elementName (.node d))
      (s.FoundDirective location element elementName d) := by
  rw [checkDirective_eq hr hd hdk]
  cases hdef : s.registry.directive? (.text d.nameText) with
  | none => exact Check.finds_ok (.undeclared hdef)
  | some definition =>
    have hentry := hr.directive? hdef
    refine (Check.finds_foundIf _ _).both
      (finds_checkArguments hr hw hd hdk hentry.wellTyped hentry.kind) ?_
    rintro _ _ rfl ⟨given, missing, rfl, hgiven, hmissing⟩
    have h : s.FoundDirective location element elementName d _ := .declared hdef hgiven hmissing
    simpa only [decide_eq_true_eq, ite_not, List.append_assoc] using h

/-! ## Nothing is found -/

theorem flatten_eq_nil_iff {α : Type} {xs : List α} {groups : List (List Problem)}
    {S : α → List Problem → Prop} {P : α → Prop} (h : xs.Forall₂ S groups)
    (hS : ∀ x ps, S x ps → (ps = [] ↔ P x)) : groups.flatten = [] ↔ ∀ x ∈ xs, P x := by
  induction h with
  | nil => simp
  | cons hx _ ih => simp [hS _ _ hx, ih]

theorem FoundGiven.eq_nil_iff {ps : List Problem}
    (h : s.FoundGiven element elementName definition d name ps) : ps = [] ↔
      ∃ declared given, firstOf? (definition.childrenAt .arguments) name = some declared ∧
        lastOf? (d.childrenAt .arguments) name = some given ∧
          s.Takes d.nameText declared given := by
  cases h with
  | unknown h => simp [h]
  | fitting hdeclared hgiven h => simp [hdeclared, hgiven, h]
  | unfit hdeclared hgiven h hne => simp [hdeclared, hgiven, h, hne]

theorem FoundDeclared.eq_nil_iff {ps : List Problem}
    (h : FoundDeclared element elementName definition d name ps) : ps = [] ↔
      ∀ declared, firstOf? (definition.childrenAt .arguments) name = some declared →
        declared.IsRequired → name ∈ namesIn (d.childrenAt .arguments) := by
  rw [← exists_lastOf?_iff]
  cases h with
  | missing hdeclared hrequired h => simp [hdeclared, hrequired, h]
  | lacking hdeclared h => simpa [hdeclared, Option.ne_none_iff_exists'] using h

/-- A directive suits its declaration if and only if it does so under each of the names. -/
theorem suits_iff {location : Text} : s.Suits location definition d ↔
    location.capital ∈ ((definition.childrenAt .locations).map fun l => l.nameText.capital) ∧
      (∀ name ∈ namesIn (d.childrenAt .arguments), ∃ declared given,
        firstOf? (definition.childrenAt .arguments) name = some declared ∧
          lastOf? (d.childrenAt .arguments) name = some given ∧
            s.Takes d.nameText declared given) ∧
      ∀ name ∈ namesIn (definition.childrenAt .arguments), ∀ declared,
        firstOf? (definition.childrenAt .arguments) name = some declared →
          declared.IsRequired → name ∈ namesIn (d.childrenAt .arguments) := by
  constructor
  · intro hsuits
    refine ⟨hsuits.place, fun name hname => ?_, fun name _ declared hdeclared hrequired => ?_⟩
    · obtain ⟨given, hgiven⟩ := exists_lastOf?_iff.2 hname
      obtain ⟨hmem, rfl⟩ := mem_of_lastOf? hgiven
      have hknown := mem_namesIn.2 (hsuits.known given hmem)
      obtain ⟨declared, hdeclared⟩ := exists_firstOf?_iff.2 hknown
      exact ⟨declared, given, hdeclared, hgiven, hsuits.fits _ _ _ hdeclared hgiven⟩
    · exact mem_namesIn.2 (hsuits.given name declared hdeclared hrequired)
  · intro ⟨hplace, hgiven, hmissing⟩
    refine ⟨hplace, fun a ha => ?_, fun name declared given hdeclared hlast => ?_,
      fun name declared hdeclared hrequired => ?_⟩
    · obtain ⟨declared, _, hdeclared, -⟩ := hgiven a.nameText (mem_namesIn.2 ⟨a, ha, rfl⟩)
      exact ⟨declared, mem_of_firstOf? hdeclared⟩
    · have hname := exists_lastOf?_iff.1 ⟨given, hlast⟩
      obtain ⟨declared', given', hdeclared', hlast', htakes⟩ := hgiven name hname
      rw [hdeclared, Option.some.injEq] at hdeclared'
      rw [hlast, Option.some.injEq] at hlast'
      rwa [hdeclared', hlast']
    · have hname := exists_firstOf?_iff.1 ⟨declared, hdeclared⟩
      exact mem_namesIn.1 (hmissing name hname declared hdeclared hrequired)

theorem FoundDirective.eq_nil_iff {location : Text} {ps : List Problem}
    (h : s.FoundDirective location element elementName d ps) : ps = [] ↔
      ∃ definition, s.registry.directive? (.text d.nameText) = some definition ∧
        s.Suits location definition d := by
  cases h with
  | undeclared h => simp [h]
  | @declared definition given missing h hgiven hmissing =>
    have hplace : (if location.capital ∈ (definition.childrenAt .locations).map
        (fun l => l.nameText.capital) then []
        else [Problem.illegalLocation element elementName (.text d.nameText) location]) = [] ↔
        location.capital ∈ (definition.childrenAt .locations).map fun l => l.nameText.capital := by
      split <;> simp [*]
    rw [h, List.append_eq_nil_iff, List.append_eq_nil_iff, hplace,
      flatten_eq_nil_iff hgiven fun _ _ => FoundGiven.eq_nil_iff,
      flatten_eq_nil_iff hmissing fun _ _ => FoundDeclared.eq_nil_iff, and_assoc, ← suits_iff]
    simp only [Option.some.injEq, exists_eq_left']

/-! ## Directives one after the other -/

/-- The directives of an element are checked to the end, and what was found before stays as it is in
front, whether the earlier report is passed along or put in front at the end. Nothing is found if
and only if each directive is declared, suits its place, and has arguments that fit its declaration.
What is found comes in groups, one for each directive in order, and within it first the place, then
the arguments that are given, then those that are missing. -/
theorem checkDirectives_groups (s : Schema) (hr : s.registry.WellTyped)
    (hs : s.wiring.ScalarsReject) (hc : s.wiring.CoercersReject) (location : Text) (element : Node)
    (elementName : Data) {directives : List Node}
    (hd : ∀ d ∈ directives, d.WellTyped ∧ d.kind = .directive) (earlier : Report) :
    ∃ report groups, s.checkDirectivesOnto location element elementName
        (directives.map .node) earlier = .ok report ∧
      Check.both (.ok earlier)
        (s.checkDirectives location element elementName (directives.map .node)) = .ok report ∧
      report.problems = earlier.problems ++ groups.flatten ∧
      directives.Forall₂ (s.FoundDirective location element elementName) groups ∧
      (report.problems = earlier.problems ↔ ∀ d ∈ directives, ∃ definition,
        s.registry.directive? (.text d.nameText) = some definition ∧
          s.Suits location definition d) := by
  have hfinds : Finds True (s.checkDirectives location element elementName (directives.map .node))
      fun ps => ∃ groups, ps = groups.flatten ∧
        directives.Forall₂ (s.FoundDirective location element elementName) groups := by
    rw [checkDirectives, Check.each_map]
    exact Finds.each fun d hmem =>
      finds_checkDirective hr (fun _ => ⟨hs, hc⟩) (hd d hmem).1 (hd d hmem).2
  obtain ⟨added, hadded⟩ := hfinds.total trivial
  obtain ⟨groups, hproblems, hgroups⟩ := hfinds.sound added hadded
  have honto : Check.onto (s.checkDirectives location element elementName
      (directives.map .node)) earlier = .ok (earlier ++ added) := by
    rw [hadded]
    rfl
  refine ⟨earlier ++ added, groups, (checkDirectivesOnto_eq ..).trans honto, honto, ?_, hgroups, ?_⟩
  · rw [Report.problems_append, hproblems]
  · rw [Report.problems_append, hproblems, List.append_right_eq_self]
    exact flatten_eq_nil_iff hgroups fun _ _ => FoundDirective.eq_nil_iff

/-- A type of objects with a field that must be given. -/
def boxDefinition : Grammar.Definition :=
  .type none "Box" [] (.inputObject [⟨none, "width", .named "Int" true, none, []⟩,
    ⟨none, "within", .list (.named "Box" true) false, none, []⟩])

/-- A directive with an argument that must be given and one that takes objects. -/
def packDefinition : Grammar.Definition :=
  .directive none "pack" [⟨none, "name", .named "String" true, none, []⟩,
    ⟨none, "boxes", .list (.named "Box" true) false, none, []⟩] [⟨"interface", by decide⟩] (by simp)

/-- Uses of this directive and of one that is not declared. The first one gives an argument twice
and one that is not declared; of the objects in the list, the second one lacks a field, and holds
another object with a text in the place of a number. -/
def packUses : List Grammar.Directive :=
  [⟨"pack", [("boxes", .null), ("label", .null), ("boxes", .list [.object [("width", .int "1")],
    .object [("within", .object [("width", .string ⟨"a", false⟩)])]])]⟩, ⟨"gone", []⟩]

/-- A problem that was found before. -/
def earlierReport : Report :=
  .ofProblem (.undeclaredDirective (some default) (.text "T") (.text "old"))

/-- The uses are checked on a field, where the directive may not stand. -/
theorem checkDirectives_groups_pack :
    let s : Schema :=
      ⟨(Registry.empty.addAll [boxDefinition.node, packDefinition.node]).1, .empty⟩
    let directives := packUses.map Grammar.Directive.node
    ∃ report groups, s.checkDirectivesOnto DirectivePlace.field.label default (.text "f")
        (directives.map .node) earlierReport = .ok report ∧
      Check.both (.ok earlierReport) (s.checkDirectives DirectivePlace.field.label default
        (.text "f") (directives.map .node)) = .ok report ∧
      report.problems = earlierReport.problems ++ groups.flatten ∧
      directives.Forall₂ (s.FoundDirective DirectivePlace.field.label default (.text "f")) groups ∧
      (report.problems = earlierReport.problems ↔ ∀ d ∈ directives, ∃ definition,
        s.registry.directive? (.text d.nameText) = some definition ∧
          s.Suits DirectivePlace.field.label definition d) := by
  intro s directives
  refine checkDirectives_groups s ?_ ?_ ?_ DirectivePlace.field.label default (.text "f") ?_
    earlierReport
  · refine Registry.wellTyped_empty.addAll fun n hn => ?_
    rcases List.mem_cons.1 hn with rfl | hn
    · exact ⟨boxDefinition.wellTyped_node, boxDefinition.isDeclaration_kind⟩
    · rw [List.mem_singleton.1 hn]
      exact ⟨packDefinition.wellTyped_node, packDefinition.isDeclaration_kind⟩
  · simp [s, Wiring.ScalarsReject, Wiring.empty, Table.values]
  · simp [s, Wiring.CoercersReject, Wiring.empty]
  · intro d hd
    obtain ⟨d, -, rfl⟩ := List.mem_map.1 hd
    exact ⟨d.wellTyped_node, rfl⟩

end Schema

end GraphSchema
