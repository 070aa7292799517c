import GraphSchema.Node.Call
import GraphSchema.Proofs.Node.Attribute
import Mathlib.Data.List.DropRight

/-!
# What calls ask for

A call on a builder is done as a whole or not at all. Of the values that calls give for an attribute
the last one counts, and data that were added before it are gone.

## Main definitions

* `Node.Call.result`: what a call makes of a builder.
* `Node.Call.isKnown`, `Node.Call.Fits`: calls that name attributes, with what these can have.
* `Node.lastGiven?`, `Node.addedSince`, `Node.entriesOf`: what calls do for an attribute.
* `Node.wanted`: the value that calls ask for.

## Main statements

* `Node.Call.run_eq`: a call as a whole.
* `Node.Call.result_of_unknown`: calls that are refused.
* `Node.wanted_concat_of_nil`, `Node.wanted_concat_of_getLast?`: what one more call asks for.
-/

namespace GraphSchema.Node

variable {n : Node} {b : Builder} {calls : List Call} {c : Call} {a : Attribute}

/-! ## One call -/

namespace Building

theorem run_check (v : Assignment) (b : Builder) :
    (check v).run b =
      match v.unknown? b.kind with
      | some name => .error (.unknownAttribute name b.kind) b
      | none => .ok ⟨⟩ b := by
  change EStateM.run (match v.unknown? b.kind with
    | some name => throw (.unknownAttribute name b.kind)
    | none => pure ⟨⟩ : Building Unit) b = _
  cases v.unknown? b.kind <;> rfl

/-- The checks of values come to the first one with an unknown name. -/
theorem run_forM_check (values : List Assignment) (b : Builder) :
    EStateM.run (values.forM check) b =
      match values.findSome? (Assignment.unknown? b.kind) with
      | some name => .error (.unknownAttribute name b.kind) b
      | none => .ok ⟨⟩ b := by
  induction values with
  | nil => rfl
  | cons v values ih =>
    rw [List.forM_eq_forM, List.forM_cons, EStateM.run_bind, run_check, List.findSome?_cons]
    cases v.unknown? b.kind with
    | some name => rfl
    | none => exact ih

theorem run_forM_assign (values : List Assignment) (b : Builder) :
    EStateM.run (values.forM fun v => modify fun b => b.assign v : Building Unit) b =
      .ok ⟨⟩ (values.foldl Builder.assign b) := by
  induction values generalizing b with
  | nil => rfl
  | cons v values ih => exact ih (b.assign v)

theorem run_step (change : Builder → Except Fault Builder) (b : Builder) :
    (step change).run b =
      match change b with
      | .ok b' => .ok ⟨⟩ b'
      | .error f => .error f b := by
  change EStateM.run (match change b with
    | .ok b' => set b'
    | .error f => throw f : Building Unit) b = _
  cases change b <;> rfl

end Building

namespace Call

/-- What a call makes of a builder. -/
def result : Call → Builder → Except Fault Builder
  | set values, b => b.set values
  | add name ds, b => b.add name ds
  | putData key value, b => .ok (b.putData key value)

/-- Nodes of the kind have all attributes that the call names. -/
def isKnown (k : Kind) : Call → Bool
  | set values => values.all fun v => v.attribute?.any (Attribute.isOf k)
  | add name _ => Attribute.all.any fun a => a.label = name && a.isOf k
  | putData _ _ => true

/-- The call gives attributes what they can have, and adds to a sequence: to children, or atoms to
the comments. -/
def Fits (k : Kind) : Call → Prop
  | set values => ∀ v ∈ values, v.Fits k
  | add name ds =>
    (∃ r, (r, .children) ∈ k.layout ∧ r.label = name) ∨
      name = Attribute.comments.label ∧ ∀ d ∈ ds, d.atom?.isSome
  | putData _ _ => True

/-- A call is done as a whole, or it leaves the builder as it was. -/
theorem run_eq (c : Call) (b : Builder) :
    c.run.run b =
      match c.result b with
      | .ok b' => .ok ⟨⟩ b'
      | .error f => .error f b := by
  cases c with
  | set values =>
    rw [run, EStateM.run_bind, Building.run_forM_check, result, Builder.set]
    cases values.findSome? (Assignment.unknown? b.kind) with
    | some name => rfl
    | none => exact Building.run_forM_assign values b
  | add name ds => exact Building.run_step _ b
  | putData key value => rfl

/-- If the fault of a call is caught, the builder is as it was. -/
theorem run_attempt (c : Call) (b : Builder) :
    c.attempt.run b =
      match c.result b with
      | .ok b' => .ok ⟨⟩ b'
      | .error _ => .ok ⟨⟩ b := by
  have hrun : c.run b = _ := run_eq c b
  simp only [attempt, tryCatch, tryCatchThe, MonadExceptOf.tryCatch, EStateM.tryCatch, EStateM.run,
    hrun]
  cases c.result b <;> rfl

/-- A call that names an unknown attribute fails. -/
theorem result_of_unknown (h : c.isKnown b.kind = false) :
    ∃ f, c.result b = .error f ∧ f.failure.category = .type := by
  cases c with
  | set values =>
    obtain ⟨v, hv, hunknown⟩ := List.all_eq_false.1 h
    have hsome : (values.findSome? (Assignment.unknown? b.kind)).isSome := by
      rw [List.findSome?_isSome_iff]
      refine ⟨v, hv, Option.isSome_iff_ne_none.2 fun hnone => hunknown ?_⟩
      exact Assignment.unknown?_eq_none_iff.1 hnone
    obtain ⟨name, hname⟩ := Option.isSome_iff_exists.1 hsome
    exact ⟨.unknownAttribute name b.kind, by rw [result, Builder.set, hname], rfl⟩
  | add name ds =>
    have hother : ∀ a : Attribute, a.label = name → a.isOf b.kind = false := by
      intro a ha
      have hnot := List.any_eq_false.1 h a (Attribute.mem_all a)
      simpa [ha] using hnot
    have hrole : (Role.ofLabel? name).filter b.kind.has = none := by
      refine Option.filter_eq_none_iff.2 fun r hr hhas => ?_
      have hname : r.label = name := by simpa using List.find?_some hr
      exact absurd hhas (by simpa [Attribute.isOf] using hother (.slot r) hname)
    have hmetadata : name ∉ metadataNames := by
      intro hname
      obtain ⟨a, ha, rfl⟩ := List.mem_map.1 (Attribute.metadataNames_eq ▸ hname)
      have hnot := hother a rfl
      rw [Attribute.isOf_of_mem_metadata ha] at hnot
      cases hnot
    refine ⟨.unknownAttribute name b.kind, ?_, rfl⟩
    rw [result, Builder.add, hrole, if_pos hmetadata]
  | putData key value => cases h

/-! ## What calls ask for -/

/-- The values that a call gives for an attribute. -/
def given (a : Attribute) : Call → List Assignment
  | set values => values.filter fun v => v.attribute? = some a
  | _ => []

/-- The data that a call adds to what an attribute holds. -/
def added (a : Attribute) : Call → List Data
  | add name ds => if a.label = name then ds else []
  | _ => []

/-- The key and the value that a call puts. -/
def put? : Call → Option (Text × Atom)
  | putData key value => some (key, value)
  | _ => none

/-- Calls that put entries name no attributes. -/
theorem filterMap_put?_filter (k : Kind) (calls : List Call) :
    (calls.filter fun c => c.isKnown k).filterMap put? = calls.filterMap put? := by
  rw [List.filterMap_filter]
  refine List.filterMap_congr fun c _ => ?_
  cases c with
  | putData key value => rfl
  | _ => simp [put?]

end Call

/-- The last value that calls give for an attribute. -/
def lastGiven? (a : Attribute) (calls : List Call) : Option Assignment :=
  (calls.flatMap (Call.given a)).getLast?

/-- What calls add to an attribute after the last one that gives a value for it. -/
def addedSince (a : Attribute) (calls : List Call) : List Data :=
  (calls.rtakeWhile fun c => (c.given a).isEmpty).flatMap (Call.added a)

/-- The entries that calls put; of one key the last entry counts. -/
def entriesOf (calls : List Call) : Table Text Atom := .ofLast (calls.filterMap Call.put?)

namespace Assignment

/-- The value as nodes of the kind have it. -/
def sequenced (k : Kind) : Assignment → Assignment
  | slot s => slot (k.sequenced s)
  | v => v

/-- The value with data behind those that are there. -/
def extended (ds : List Data) : Assignment → Assignment
  | slot (.mk r (.list all)) => slot (.mk r (.list (all ++ ds)))
  | comments all => comments (all ++ ds.filterMap Data.atom?)
  | v => v

/-- The value with other entries in a mapping. -/
def overridden (entries : Table Text Atom) : Assignment → Assignment
  | data all => data (all.putAll entries)
  | v => v

@[simp]
theorem extended_nil (v : Assignment) : v.extended [] = v := by
  unfold extended
  split <;> simp

@[simp]
theorem extended_extended (v : Assignment) (ds es : List Data) :
    (v.extended ds).extended es = v.extended (ds ++ es) := by
  match v with
  | slot (.mk r (.list all)) => simp [extended]
  | slot (.mk r (.atom a)) => rfl
  | slot (.mk r (.record fields)) => rfl
  | slot (.mk r (.node n)) => rfl
  | comments all => simp [extended]
  | source _ | span _ | location _ | ignored _ | data _ | other _ => rfl

end Assignment

/-- The value that calls ask for: the last one that is given, or else that of the node, with what is
added since. -/
def wanted (n : Node) (calls : List Call) (a : Attribute) : Assignment :=
  (((lastGiven? a calls).getD (n.value a)).sequenced n.kind).extended (addedSince a calls)

theorem wanted_nil (n : Node) (a : Attribute) : n.wanted [] a = (n.value a).sequenced n.kind :=
  Assignment.extended_nil _

/-- One more call that gives no value. -/
theorem wanted_concat_of_nil (h : c.given a = []) :
    n.wanted (calls ++ [c]) a = (n.wanted calls a).extended (c.added a) := by
  have hlast : lastGiven? a (calls ++ [c]) = lastGiven? a calls := by
    simp [lastGiven?, h]
  have hadded : addedSince a (calls ++ [c]) = addedSince a calls ++ c.added a := by
    rw [addedSince, List.rtakeWhile_concat_pos _ _ _ (by simpa using h), List.flatMap_append]
    simp [addedSince]
  rw [wanted, hlast, hadded, wanted, Assignment.extended_extended]

/-- One more call that gives a value. -/
theorem wanted_concat_of_getLast? {v : Assignment} (h : (c.given a).getLast? = some v) :
    n.wanted (calls ++ [c]) a = v.sequenced n.kind := by
  have hne : c.given a ≠ [] := by
    rintro hnil
    rw [hnil] at h
    cases h
  have hlast : lastGiven? a (calls ++ [c]) = some v := by
    rw [lastGiven?, List.flatMap_append, List.getLast?_append, List.flatMap_singleton, h]
    rfl
  have hadded : addedSince a (calls ++ [c]) = [] := by
    rw [addedSince, List.rtakeWhile_concat_neg _ _ _ (by simpa using hne)]
    rfl
  rw [wanted, hlast, hadded, Assignment.extended_nil]
  rfl

end GraphSchema.Node
