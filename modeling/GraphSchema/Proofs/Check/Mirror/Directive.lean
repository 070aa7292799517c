import GraphSchema.Proofs.Check.Argument
import GraphSchema.Proofs.Check.Mirror.Value

/-!
# Directives with other metadata

A directive on an element is checked in a schema as the directive with other metadata is checked in
the schema with other metadata.

## Main definitions

* `Schema.relabel`: a schema of nodes with other metadata.

## Main statements

* `Schema.mirrors_checkArguments`: the arguments of a directive.
* `Schema.mirrors_checkDirective`: a directive on an element.
-/

namespace GraphSchema

open Check (Mirrors)
open Node

variable {f : Metadata → Metadata}

namespace Schema

/-- A schema of nodes with other metadata. -/
def relabel (f : Metadata → Metadata) (s : Schema) : Schema := ⟨s.registry.relabel f, s.wiring⟩

variable {s : Schema} {element definition d a i : Node} {name directive : Text}

/-! ## Arguments -/

/-- Nodes under their names. -/
theorem entries_relabel (ns : List Node) :
    ((ns.map (Node.relabel f)).map fun n => (Atom.text n.nameText, Data.node n)) =
      Table.mapValues (Data.relabel f) (ns.map fun n => (Atom.text n.nameText, Data.node n)) := by
  simp [Table.mapValues]

theorem mirrors_checkGiven (hr : s.registry.WellTyped) (hw : s.wiring.Blind f)
    {declared : Table Atom Data} {key : Atom}
    (hdeclared : ∀ e ∈ declared, ∃ i, e.2 = .node i ∧ i.WellTyped ∧ i.kind = .inputValueDefinition)
    (ha : a.WellTyped) (hak : a.kind = .argument) :
    Mirrors f (s.checkGiven element (.text name) (.text directive) declared key (.node a))
      ((s.relabel f).checkGiven (element.relabel f) (.text name) (.text directive)
        (declared.mapValues (Data.relabel f)) key (.node (a.relabel f))) := by
  obtain ⟨haname, v, -, hvalue, hv⟩ := ha.entry (.inr hak)
  have hget' := Table.get?_mapValues (Data.relabel f) declared key
  cases hget : declared.get? key with
  | none =>
    rw [hget] at hget'
    rw [checkGiven_unknown haname hget, checkGiven_unknown haname.relabel hget', nameText_relabel]
    refine Check.mirrors_found ?_ ?_
    · simp [Problem.IsWorded, Problem.shown]
    · simp [Problem.relabel]
  | some declaration =>
    obtain ⟨i, rfl, hwell, hk⟩ := hdeclared _ (Table.mem_of_get? hget)
    obtain ⟨-, t, -, ht, href⟩ := hwell.inputValue hk
    have ht' : (i.relabel f).get .type = .ok (.node (t.relabel f)) := by
      rw [get_relabel, ht, ← Data.relabel_node]
      rfl
    rw [hget, Option.map_some, Data.relabel_node] at hget'
    rw [checkGiven_known hget ht, checkGiven_known hget' ht']
    have hmirrors := Usage.mirrors_checkArgument (f := f)
      (u := ⟨s.registry, s.wiring, .text directive, element, .text name, a⟩)
      ⟨⟨_, rfl⟩, ⟨_, rfl⟩, haname⟩ hr hw hvalue hv href
    rwa [Usage.relabel, Data.relabel_atom, Data.relabel_atom] at hmirrors

theorem mirrors_checkLacking {given : Table Atom Data} {key : Atom} (hi : i.WellTyped)
    (hk : i.kind = .inputValueDefinition) :
    Mirrors f (checkLacking element (.text name) (.text directive) given key (.node i))
      (checkLacking (element.relabel f) (.text name) (.text directive)
        (given.mapValues (Data.relabel f)) key (.node (i.relabel f))) := by
  have hname := (hi.inputValue hk).1
  unfold checkLacking
  rw [← Data.relabel_node, Usage.isRequired_relabel, Table.has_mapValues, Data.relabel_node]
  refine .bindSame fun b _ => ?_
  rw [Data.get, Data.get, hname, hname.relabel, nameText_relabel]
  refine Check.mirrors_foundIf ?_ ?_
  · simp [Problem.IsWorded, Problem.shown]
  · simp [Problem.relabel]

theorem mirrors_checkArguments (hr : s.registry.WellTyped) (hw : s.wiring.Blind f)
    (hd : d.WellTyped) (hdk : d.kind = .directive) (hdef : definition.WellTyped)
    (hdefk : definition.kind = .directiveDefinition) :
    Mirrors f (s.checkArguments element (.text name) (.node d) definition)
      ((s.relabel f).checkArguments (element.relabel f) (.text name) (.node (d.relabel f))
        (definition.relabel f)) := by
  obtain ⟨-, -, -, hgiven⟩ := hd.directive hdk
  have hfirst := fun e => exists_of_mem_parameters (e := e) hdef hdefk
  rw [checkArguments_eq hd hdk hdef hdefk,
    checkArguments_eq hd.relabel (by rwa [kind_relabel]) hdef.relabel (by rwa [kind_relabel]),
    childrenAt_relabel, childrenAt_relabel, entries_relabel, entries_relabel,
    Table.ofLast_mapValues, Table.ofFirst_mapValues, nameText_relabel]
  refine .both (.each fun e he => ?_) (.each fun e he => ?_)
  · obtain ⟨a, ha, rfl⟩ := List.mem_map.1 (Table.mem_of_mem_ofLast he)
    dsimp only
    rw [Data.relabel_node]
    exact mirrors_checkGiven hr hw hfirst (hgiven a ha).1 (hgiven a ha).2
  · obtain ⟨i, hi, hwell, hk⟩ := hfirst e he
    dsimp only
    rw [hi, Data.relabel_node]
    exact mirrors_checkLacking hwell hk

/-! ## Directives -/

/-- A directive on an element at a place. -/
theorem mirrors_checkDirective (hr : s.registry.WellTyped) (hw : s.wiring.Blind f) {label : Text}
    (hd : d.WellTyped) (hk : d.kind = .directive) :
    Mirrors f (s.checkDirective label element (.text name) (.node d))
      ((s.relabel f).checkDirective label (element.relabel f) (.text name)
        (.node (d.relabel f))) := by
  rw [checkDirective_eq hr hd hk,
    checkDirective_eq (s := s.relabel f) hr.relabel hd.relabel (by rwa [kind_relabel]),
    nameText_relabel]
  have hget := Registry.directive?_relabel (f := f) s.registry (.text d.nameText)
  cases hdef : s.registry.directive? (.text d.nameText) with
  | none =>
    rw [hdef, Option.map_none] at hget
    rw [relabel, hget]
    refine Check.mirrors_found ?_ ?_
    · simp [Problem.IsWorded, Problem.shown]
    · simp [Problem.relabel]
  | some definition =>
    rw [hdef, Option.map_some] at hget
    have hentry := hr.directive? hdef
    have hplaces : (((definition.relabel f).childrenAt .locations).map
        fun l => l.nameText.capital) =
        (definition.childrenAt .locations).map fun l => l.nameText.capital := by
      simp [childrenAt_relabel]
    rw [relabel, hget]
    dsimp only
    rw [hplaces]
    refine .both (Check.mirrors_foundIf ?_ ?_)
      (mirrors_checkArguments hr hw hd hk hentry.wellTyped hentry.kind)
    · simp [Problem.IsWorded, Problem.shown]
    · simp [Problem.relabel]

end Schema

end GraphSchema
