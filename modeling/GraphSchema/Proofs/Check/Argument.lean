import GraphSchema.Check.Schema
import GraphSchema.Proofs.Check.Match

/-!
# Arguments of directives

The arguments that directives are given are checked without failing, unless a scalar or a coercer
from outside fails, and what is found is about these arguments.

## Main definitions

* `Problem.isOfArgument`: the problem is about an argument that was given or is missing.
* `Wiring.Admits`: a coercer takes a literal.

## Main statements

* `Usage.decides_checkArgument`: values of arguments.
* `Schema.checkArguments_eq`, `Schema.checkDirective_eq`: what is checked of well-typed directives.
* `Schema.counts_checkArguments`: no other problems are found.
* `Schema.counts_checkDirective`: problems that are not about arguments.
-/

namespace GraphSchema

/-- The problem is about an argument of a directive on an element. -/
def Problem.isOfArgument : Problem → Bool
  | unknownArgument _ _ _ _ => true
  | missingArgument _ _ _ _ => true
  | badValue _ _ _ _ _ _ _ => true
  | _ => false

theorem Problem.isOfArgument_of_isMismatch {p : Problem} (h : p.isMismatch) : p.isOfArgument := by
  cases p <;> first | rfl | cases h

open Check (Decides Counts)

/-! ## Values -/

/-- The coercer of an argument of a directive, if there is one, takes the literal. -/
def Wiring.Admits (w : Wiring) (directive argument : Text) (value : Node) : Prop :=
  ∀ c, w.coercer? directive argument = some c → ∃ d, c.run (.node value) = .ok d

namespace Usage

variable {T : Prop} {u : Usage} {v t : Node}

/-- The coercer of the argument, if there is one, takes the literal. -/
def Admits (u : Usage) (value : Node) : Prop :=
  ∀ directive argument, u.directive.text? = some directive →
    u.argument.name.text? = some argument → u.wiring.Admits directive argument value

/-- The coercer of an argument. -/
theorem decides_coerce (hw : T → u.wiring.CoercersReject) (hv : v.IsLiteral) :
    Decides T (u.coerce (.node v)) (u.Admits v) := by
  unfold coerce
  cases hc : (do u.wiring.coercer? (← u.directive.text?) (← u.argument.name.text?)) with
  | none =>
    refine Check.decides_clean fun directive argument hd ha c hcoercer => ?_
    simp [hd, ha, hcoercer] at hc
  | some c =>
    obtain ⟨directive, hd, hc⟩ := Option.bind_eq_some_iff.1 hc
    obtain ⟨argument, ha, hc⟩ := Option.bind_eq_some_iff.1 hc
    have hadmits : u.Admits v ↔ ∃ x, c.run (.node v) = .ok x := by
      simp [Admits, Wiring.Admits, hd, ha, hc]
    rw [hadmits]
    dsimp only
    cases hrun : c.run (.node v) with
    | ok x => exact Check.finds_ok (by simp)
    | error f =>
      dsimp only
      split
      · exact (decides_mismatch (by simp)).after rfl
      · rename_i hf
        exact Check.finds_error fun hT => hf ((hw hT).coercer? hc v hv f hrun)

/-- The value of an argument: the coercer is called if the value fits its type. -/
theorem decides_checkArgument (hr : u.registry.WellTyped)
    (hw : T → u.wiring.ScalarsReject ∧ u.wiring.CoercersReject)
    (hvalue : u.argument.get .value = .ok (.node v)) (hv : v.IsLiteral) (ht : t.IsReference) :
    Decides T (u.checkArgument (.node t))
      (u.registry.Conforms u.wiring t v ∧ u.Admits v) := by
  rw [checkArgument, hvalue, ok_bind]
  exact (decides_matchesType hr (fun hT => (hw hT).1) hv ht).andThen
    (decides_coerce (fun hT => (hw hT).2) hv)

end Usage

/-! ## All arguments -/

namespace Schema

open Node

/-- Nodes are found under their names as they are found by their names. -/
theorem find?_entries (ns : List Node) (name : Text) :
    ((ns.map fun n => (Atom.text n.nameText, Data.node n)).find? fun e => e.1 = .text name).map
      Prod.snd = (ns.find? fun n => n.nameText = name).map Data.node := by
  have hsame : ((fun e : Atom × Data => decide (e.1 = .text name)) ∘
      fun n : Node => (Atom.text n.nameText, Data.node n)) =
        fun n => decide (n.nameText = name) := by
    funext n
    simp
  rw [List.find?_map, hsame, Option.map_map]
  rfl

/-- The argument that is declared under a name. -/
theorem get?_ofFirst_named (ns : List Node) (name : Text) :
    (Table.ofFirst (ns.map fun n => (Atom.text n.nameText, Data.node n))).get? (.text name) =
      (ns.find? fun n => n.nameText = name).map Data.node := by
  rw [Table.get?_ofFirst, find?_entries]

/-- The argument that is given under a name. -/
theorem get?_ofLast_named (ns : List Node) (name : Text) :
    (Table.ofLast (ns.map fun n => (Atom.text n.nameText, Data.node n))).get? (.text name) =
      (ns.reverse.find? fun n => n.nameText = name).map Data.node := by
  rw [Table.get?_ofLast, ← List.map_reverse, find?_entries]

variable {T : Prop} {s : Schema} {sort : Problem → Bool} {element definition d : Node} {name : Data}

section Single

variable {directive : Data} {declared given : Table Atom Data} {key : Atom} {a i t : Node}

theorem checkGiven_unknown (ha : a.HasName) (h : declared.get? key = none) :
    s.checkGiven element name directive declared key (.node a) =
      Check.found (.unknownArgument element name directive (.text a.nameText)) := by
  have hname : (Data.node a).get .name = .ok (.text a.nameText) := ha
  simp only [checkGiven, h, hname, ok_bind]

theorem checkGiven_known (h : declared.get? key = some (.node i))
    (ht : i.get .type = .ok (.node t)) :
    s.checkGiven element name directive declared key (.node a) =
      Usage.checkArgument ⟨s.registry, s.wiring, directive, element, name, a⟩ (.node t) := by
  simp only [checkGiven, h, Data.get, ht, ok_bind]

theorem checkLacking_eq (hi : i.WellTyped) (hk : i.kind = .inputValueDefinition) :
    ∃ b, (b = true ↔ i.IsRequired) ∧
      checkLacking element name directive given key (.node i) = Check.foundIf (b && !given.has key)
        (.missingArgument element name directive (.text i.nameText)) := by
  obtain ⟨b, hb, hrequired⟩ := Usage.isRequired_eq hi hk
  exact ⟨b, hrequired, by rw [checkLacking, hb, ok_bind, Data.get, (hi.inputValue hk).1, ok_bind]⟩

theorem counts_checkGiven (hr : s.registry.WellTyped)
    (hw : T → s.wiring.ScalarsReject ∧ s.wiring.CoercersReject)
    (hsort : ∀ p, p.isOfArgument → sort p = false)
    (hdeclared : ∀ e ∈ declared, ∃ i, e.2 = .node i ∧ i.WellTyped ∧ i.kind = .inputValueDefinition)
    (ha : a.WellTyped) (hak : a.kind = .argument) :
    Counts T sort (s.checkGiven element name directive declared key (.node a)) 0 := by
  obtain ⟨haname, v, -, hvalue, hv⟩ := ha.entry (.inr hak)
  cases hget : declared.get? key with
  | none =>
    rw [checkGiven_unknown haname hget]
    exact Check.counts_found_zero (hsort _ rfl)
  | some declaration =>
    obtain ⟨i, rfl, hwell, hk⟩ := hdeclared _ (Table.mem_of_get? hget)
    obtain ⟨-, t, -, ht, href⟩ := hwell.inputValue hk
    rw [checkGiven_known hget ht]
    exact (Usage.decides_checkArgument hr hw hvalue hv href).imp fun ps hps =>
      List.countP_eq_zero.2 fun p hp => by
        simp [hsort p (Problem.isOfArgument_of_isMismatch (hps.2 p hp))]

theorem counts_checkLacking (hsort : ∀ p, p.isOfArgument → sort p = false) (hi : i.WellTyped)
    (hk : i.kind = .inputValueDefinition) :
    Counts T sort (checkLacking element name directive given key (.node i)) 0 := by
  obtain ⟨b, -, hcheck⟩ := checkLacking_eq hi hk
  rw [hcheck]
  exact Check.counts_foundIf_zero (hsort _ rfl)

end Single

/-- The arguments of a directive whose declaration is known. -/
theorem checkArguments_eq (hd : d.WellTyped) (hdk : d.kind = .directive)
    (hdef : definition.WellTyped) (hdefk : definition.kind = .directiveDefinition) :
    s.checkArguments element name (.node d) definition =
      Check.both
        (Check.each (Table.ofLast ((d.childrenAt .arguments).map fun a =>
            (.text a.nameText, .node a))) fun e =>
          s.checkGiven element name (.text d.nameText) (Table.ofFirst
            ((definition.childrenAt .arguments).map fun i => (.text i.nameText, .node i))) e.1 e.2)
        (Check.each (Table.ofFirst ((definition.childrenAt .arguments).map fun i =>
            (.text i.nameText, .node i))) fun e =>
          checkLacking element name (.text d.nameText) (Table.ofLast
            ((d.childrenAt .arguments).map fun a => (.text a.nameText, .node a))) e.1 e.2) := by
  obtain ⟨hname, hget, hitems, hgiven⟩ := hd.directive hdk
  obtain ⟨hdeclared, hparams⟩ := (hdef.directiveDefinition hdefk).1
  have hparameters : Usage.keyed (definition.content .arguments).items =
      .ok ((definition.childrenAt .arguments).map fun i => (.text i.nameText, .node i)) := by
    rw [hdeclared]
    exact Usage.keyed_eq fun i hi => ((hparams i hi).1.inputValue (hparams i hi).2).1
  have harguments : Usage.keyed (d.content .arguments).items =
      .ok ((d.childrenAt .arguments).map fun a => (.text a.nameText, .node a)) := by
    rw [hitems]
    exact Usage.keyed_eq fun a ha => ((hgiven a ha).1.entry (.inr (hgiven a ha).2)).1
  rw [checkArguments, Data.get, hname, ok_bind, hparameters, ok_bind, Data.get, hget, ok_bind,
    harguments, ok_bind]

/-- What stands under the names of the arguments of a declaration are these arguments. -/
theorem exists_of_mem_parameters (hdef : definition.WellTyped)
    (hdefk : definition.kind = .directiveDefinition) {e : Atom × Data}
    (he : e ∈ Table.ofFirst ((definition.childrenAt .arguments).map fun i =>
      (Atom.text i.nameText, Data.node i))) :
    ∃ i, e.2 = .node i ∧ i.WellTyped ∧ i.kind = .inputValueDefinition := by
  obtain ⟨i, hi, rfl⟩ := List.mem_map.1 (Table.mem_of_mem_ofFirst he)
  exact ⟨i, rfl, (hdef.directiveDefinition hdefk).1.2 i hi⟩

/-- What is found in the arguments of a directive is about these arguments. -/
theorem counts_checkArguments (hr : s.registry.WellTyped)
    (hw : T → s.wiring.ScalarsReject ∧ s.wiring.CoercersReject)
    (hsort : ∀ p, p.isOfArgument → sort p = false) (hd : d.WellTyped) (hdk : d.kind = .directive)
    (hdef : definition.WellTyped) (hdefk : definition.kind = .directiveDefinition) :
    Counts T sort (s.checkArguments element name (.node d) definition) 0 := by
  obtain ⟨-, -, -, hgiven⟩ := hd.directive hdk
  have hfirst := fun e => exists_of_mem_parameters (e := e) hdef hdefk
  rw [checkArguments_eq hd hdk hdef hdefk]
  refine Check.Counts.both (Check.counts_each_zero fun e he => ?_)
    (Check.counts_each_zero fun e he => ?_)
  · obtain ⟨a, ha, rfl⟩ := List.mem_map.1 (Table.mem_of_mem_ofLast he)
    exact counts_checkGiven hr hw hsort hfirst (hgiven a ha).1 (hgiven a ha).2
  · obtain ⟨i, hi, hwell, hk⟩ := hfirst e he
    rw [hi]
    exact counts_checkLacking hsort hwell hk

/-! ## Directives -/

/-- A directive on an element at a place. -/
theorem checkDirective_eq (hr : s.registry.WellTyped) {label : Text} (hd : d.WellTyped)
    (hk : d.kind = .directive) :
    s.checkDirective label element name (.node d) =
      match s.registry.directive? (.text d.nameText) with
      | none => Check.found (.undeclaredDirective element name (.text d.nameText))
      | some definition =>
        Check.both
          (Check.foundIf (decide (label.capital ∉
              (definition.childrenAt .locations).map fun l => l.nameText.capital))
            (.illegalLocation element name (.text d.nameText) label))
          (s.checkArguments element name (.node d) definition) := by
  have hget : d.get .name = .ok (.text d.nameText) := (hd.directive hk).1
  simp only [checkDirective, Data.get, hget, ok_bind, Data.key, Atom.key]
  cases hdef : s.registry.directive? (.text d.nameText) with
  | none => rfl
  | some definition =>
    have hentry := hr.directive? hdef
    obtain ⟨hitems, hlocations⟩ := (hentry.wellTyped.directiveDefinition hentry.kind).2
    have hnames : (definition.content .locations).items.mapM placeName =
        .ok ((definition.childrenAt .locations).map fun l => l.nameText.capital) := by
      rw [hitems, List.mapM_map]
      refine mapM_eq_ok fun l hl => ?_
      have hname : l.get .name = .ok (.text l.nameText) :=
        (hlocations l hl).1.hasName (by rw [(hlocations l hl).2]; exact List.mem_singleton_self _)
      simp only [Function.comp_apply, placeName, Data.get, hname, ok_bind]
      rfl
    simp only [hnames, ok_bind]

/-- Problems that are not about arguments are about the directive and its place. -/
theorem counts_checkDirective (hr : s.registry.WellTyped)
    (hw : T → s.wiring.ScalarsReject ∧ s.wiring.CoercersReject)
    (hsort : ∀ p, p.isOfArgument → sort p = false) {label : Text} (hd : d.WellTyped)
    (hk : d.kind = .directive) :
    Counts T sort (s.checkDirective label element name (.node d))
      (match s.registry.directive? (.text d.nameText) with
        | none => if sort (.undeclaredDirective element name (.text d.nameText)) then 1 else 0
        | some definition =>
          if label.capital ∉ (definition.childrenAt .locations).map (fun l => l.nameText.capital) ∧
            sort (.illegalLocation element name (.text d.nameText) label) then 1 else 0) := by
  rw [checkDirective_eq hr hd hk]
  cases hdef : s.registry.directive? (.text d.nameText) with
  | none => exact Check.counts_found _
  | some definition =>
    have hentry := hr.directive? hdef
    have harguments : Counts T sort (s.checkArguments element name (.node d) definition) 0 :=
      counts_checkArguments hr hw hsort hd hk hentry.wellTyped hentry.kind
    exact ((Check.counts_foundIf _ _).both harguments).of_eq (by simp)

end Schema

end GraphSchema
