import GraphSchema.Parser.Document
import GraphSchema.Proofs.Parser.Steady

/-!
# All rules are steady

Rule by rule, from those for literals up to those for definitions: none of them depends on how much
room its document has, and each takes the tokens that loops over it need.

## Main definitions

* `Parse.Settled`: a rule that is steady in all the room that there is.

## Main statements

* `Parse.steady_valueWithin`, `Parse.steady_typeWithin`: nested rules.
* `Parse.settled_definition`: definitions and extensions.
-/

namespace GraphSchema.Parse

variable {v : Views} {N n : Nat} {item item' : Parse Node}

/-- The rule does the same in all room, and takes at least `n` tokens. -/
abbrev Settled {α : Type} (v : Views) (n : Nat) (r : Parse α) : Prop := Steady v v.room n r r

/-! ## Literals -/

theorem steady_name : Steady v N 1 name name :=
  (steady_expect (by decide)).takes fun _ => steady_pure _

theorem isString_ne_finish {t : Token} (h : t.kind.isString) : t.kind ≠ .finish := by
  intro hk
  rw [hk] at h
  cases h

theorem steadyAhead_stringLiteral {t : Token} (h : t.kind.isString) :
    SteadyAhead v N 1 t stringLiteral stringLiteral :=
  (steadyAhead_advance (isString_ne_finish h)).takes fun _ => steady_node _ _ _

theorem steady_listOf (hi : Steady v N 1 item item') (hN : N ≤ v.room) :
    Steady v (N + 1) 1 (listOf item) (listOf item') :=
  steady_peek.before fun _ =>
    (steady_any (by decide) (by decide) hi hN).takes fun _ => steady_node _ _ _

theorem steady_entryOf (kind : Kind) (hi : Steady v N 1 item item') :
    Steady v N 1 (entryOf kind item) (entryOf kind item') :=
  steady_peek.before fun _ => steady_name.takes fun _ =>
    (steady_expect (by decide)).then fun _ =>
      hi.then fun _ => steady_node _ _ _

theorem steady_objectOf (hi : Steady v N 1 item item') (hN : N ≤ v.room) :
    Steady v (N + 1) 1 (objectOf item) (objectOf item') :=
  (steady_expect (by decide)).bind_less (n := 0) fun _ =>
    (steady_allUntil (fun _ => steady_skip (by decide)) (steady_entryOf _ hi) hN).then fun _ =>
      steady_node _ _ _

/-- What is nested in a literal has fewer tokens ahead. -/
theorem steady_valueOf (hi : Steady v N 1 item item') (hN : N ≤ v.room) :
    Steady v (N + 1) 1 (valueOf item) (valueOf item') := by
  refine steady_peek_bind fun t => ?_
  have htake : ∀ {kind : Kind} {slots : List Slot}, t.kind ≠ .finish →
      SteadyAhead v (N + 1) 1 t (advance >>= fun _ => node t kind slots)
        (advance >>= fun _ => node t kind slots) :=
    fun h => (steadyAhead_advance h).takes fun _ => steady_node _ _ _
  split
  · exact (steady_listOf hi hN).ahead t
  · exact (steady_objectOf hi hN).ahead t
  · exact htake (by rw [‹t.kind = _›]; decide)
  · exact htake (by rw [‹t.kind = _›]; decide)
  · exact steadyAhead_stringLiteral (by rw [‹t.kind = _›]; decide)
  · exact steadyAhead_stringLiteral (by rw [‹t.kind = _›]; decide)
  · exact htake (by rw [‹t.kind = _›]; decide)
  · exact steadyAhead_unexpected

theorem steady_valueWithin {depth depth' : Nat} (hd : N ≤ depth) (hd' : N ≤ depth')
    (hN : N ≤ v.room) : Steady v N 1 (valueWithin depth) (valueWithin depth') := by
  induction N generalizing depth depth' with
  | zero => exact fun ts _ hlt => absurd hlt (Nat.not_lt_zero _)
  | succ N ih =>
    obtain ⟨depth, rfl⟩ := Nat.exists_eq_add_one_of_ne_zero (by omega : depth ≠ 0)
    obtain ⟨depth', rfl⟩ := Nat.exists_eq_add_one_of_ne_zero (by omega : depth' ≠ 0)
    exact steady_valueOf (ih (by omega) (by omega) (by omega)) (by omega)

theorem settled_value : Settled v 1 value :=
  Steady.read_bind (steady_valueWithin room_le.1 room_le.2 (Nat.le_refl _))

theorem settled_arguments : Settled v 0 arguments :=
  steady_optionalMany (by decide) (by decide) (steady_entryOf _ settled_value) (Nat.le_refl _)

theorem settled_directive : Settled v 1 directive :=
  (steady_expect (by decide)).takes fun _ => steady_name.then fun _ =>
    settled_arguments.then fun _ => steady_node _ _ _

theorem settled_directives : Settled v 0 directives :=
  steady_allUntil (fun _ => (steady_ahead _).then fun _ => steady_pure _) settled_directive
    (Nat.le_refl _)

/-! ## References to types -/

theorem steady_namedType : Steady v N 1 namedType namedType :=
  steady_peek.before fun _ => steady_name.takes fun _ => steady_node _ _ _

/-- The mark that may follow a reference. -/
theorem steady_mark {start : Token} {m : Node} :
    Steady v N 0
      (skip .exclamationMark >>= fun r =>
        if r then node start .nonNullType [.child .type m] else pure m)
      (skip .exclamationMark >>= fun r =>
        if r then node start .nonNullType [.child .type m] else pure m) := by
  refine (steady_skip (by decide)).then fun r => ?_
  split
  · exact steady_node _ _ _
  · exact steady_pure _

/-- What stands in brackets has fewer tokens ahead. -/
theorem steady_typeOf (hi : Steady v N 1 item item') :
    Steady v (N + 1) 1 (typeOf item) (typeOf item') := by
  refine steady_peek.before fun start => steady_skip_bind (by decide) ?_ ?_
  · exact hi.then fun _ =>
      (steady_expect (by decide)).then fun _ =>
        (steady_node _ _ _).then fun _ => steady_mark
  · exact steady_namedType.takes fun _ => steady_mark

theorem steady_typeWithin {depth depth' : Nat} (hd : N ≤ depth) (hd' : N ≤ depth') :
    Steady v N 1 (typeWithin depth) (typeWithin depth') := by
  induction N generalizing depth depth' with
  | zero => exact fun ts _ hlt => absurd hlt (Nat.not_lt_zero _)
  | succ N ih =>
    obtain ⟨depth, rfl⟩ := Nat.exists_eq_add_one_of_ne_zero (by omega : depth ≠ 0)
    obtain ⟨depth', rfl⟩ := Nat.exists_eq_add_one_of_ne_zero (by omega : depth' ≠ 0)
    exact steady_typeOf (ih (by omega) (by omega))

theorem settled_typeReference : Settled v 1 typeReference :=
  Steady.read_bind (steady_typeWithin room_le.1 room_le.2)

/-! ## Members -/

theorem steady_description : Steady v N 0 description description := by
  refine steady_peek_bind fun t => ?_
  split
  · exact ((steadyAhead_stringLiteral ‹_›).takes fun _ => steady_pure _).mono (Nat.zero_le _)
  · exact (steady_pure _).ahead t

theorem settled_operationName : Settled v 1 operationName := by
  refine steady_expect_bind (by decide) fun t ht => ?_
  split
  · exact steady_pure _
  · exact steady_failAt ht

theorem settled_operationType : Settled v 1 operationType :=
  steady_peek.before fun _ => settled_operationName.takes fun _ =>
    (steady_expect (by decide)).then fun _ =>
      steady_namedType.then fun _ => steady_node _ _ _

theorem settled_defaultValue : Settled v 0 defaultValue := by
  refine (steady_skip (by decide)).then fun b => ?_
  split
  · exact settled_value.then fun _ => steady_pure _
  · exact steady_pure _

theorem settled_inputValue : Settled v 1 inputValue :=
  steady_peek.before fun _ => steady_description.before fun _ =>
    steady_name.takes fun _ => (steady_expect (by decide)).then
      fun _ => settled_typeReference.then fun _ =>
        settled_defaultValue.then fun _ => settled_directives.then fun _ => steady_node _ _ _

theorem settled_argumentDefinitions : Settled v 0 argumentDefinitions :=
  steady_optionalMany (by decide) (by decide) settled_inputValue (Nat.le_refl _)

theorem settled_inputFields : Settled v 0 inputFields :=
  steady_optionalMany (by decide) (by decide) settled_inputValue (Nat.le_refl _)

theorem settled_field : Settled v 1 field :=
  steady_peek.before fun _ => steady_description.before fun _ =>
    steady_name.takes fun _ => settled_argumentDefinitions.then fun _ =>
      (steady_expect (by decide)).then fun _ =>
        settled_typeReference.then fun _ =>
          settled_directives.then fun _ => steady_node _ _ _

theorem settled_fields : Settled v 0 fields :=
  steady_optionalMany (by decide) (by decide) settled_field (Nat.le_refl _)

theorem settled_enumValue : Settled v 1 enumValue := by
  refine steady_peek.before fun _ => steady_description.before fun _ =>
    steady_start_bind fun t ht => steady_name.takes fun _ => ?_
  split
  · refine (steady_failAt (n := 0) ht).then fun _ => ?_
    exact settled_directives.then fun _ => steady_node _ _ _
  · exact settled_directives.then fun _ => steady_node _ _ _

theorem settled_enumValues : Settled v 0 enumValues :=
  steady_optionalMany (by decide) (by decide) settled_enumValue (Nat.le_refl _)

theorem settled_interfaces : Settled v 0 interfaces := by
  refine steady_peek_bind fun t => ?_
  split
  · rename_i ht
    exact ((steadyAhead_advance (Token.kind_ne_finish ht)).takes fun _ =>
      (steady_delimited (by decide) steady_namedType (Nat.le_refl _)).mono (Nat.zero_le _)).mono
        (Nat.zero_le _)
  · exact (steady_pure _).ahead t

theorem settled_unionMembers : Settled v 0 unionMembers := by
  refine (steady_skip (by decide)).then fun b => ?_
  split
  · exact (steady_delimited (by decide) steady_namedType (Nat.le_refl _)).mono (Nat.zero_le _)
  · exact steady_pure _

theorem settled_members (k : TypeKind) (r : Role) : Settled v 0 (members k r) := by
  unfold members
  split
  · exact settled_interfaces
  · exact settled_directives
  · split
    · exact settled_inputFields
    · exact settled_fields
  · exact settled_unionMembers
  · exact settled_enumValues
  · exact steady_pure _

theorem settled_allMembers (k : TypeKind) : Settled v 0 (allMembers k) :=
  steady_mapM fun r => (settled_members k r).then fun _ => steady_pure _

/-! ## Definitions and extensions -/

theorem settled_typeDefinition (k : TypeKind) : Settled v 1 (typeDefinition k) :=
  steady_peek.before fun _ => steady_description.before fun _ =>
    (steady_expectWord _).takes fun _ => steady_name.then fun _ =>
      (settled_allMembers k).then fun _ => steady_node _ _ _

theorem settled_schemaDefinition : Settled v 1 schemaDefinition :=
  steady_peek.before fun _ => steady_description.before fun _ =>
    (steady_expectWord _).takes fun _ => settled_directives.then fun _ =>
      (steady_many (by decide) (by decide) settled_operationType (Nat.le_refl _)).then
        fun _ => steady_node _ _ _

theorem settled_directiveLocation : Settled v 1 directiveLocation := by
  refine steady_start_bind fun t ht => steady_name.takes fun _ => ?_
  split
  · exact steady_node _ _ _
  · exact steady_failAt ht

theorem settled_directiveDefinition : Settled v 1 directiveDefinition :=
  steady_peek.before fun _ => steady_description.before fun _ =>
    (steady_expectWord _).takes fun _ =>
      (steady_expect (by decide)).then fun _ =>
        steady_name.then fun _ => settled_argumentDefinitions.then fun _ =>
          (steady_expectWord _).then fun _ =>
            (steady_delimited (by decide) settled_directiveLocation (Nat.le_refl _)).then
              fun _ => steady_node _ _ _

theorem settled_requireAny (slots : List Slot) : Settled v 0 (requireAny slots) := by
  unfold requireAny
  split
  · exact steady_peek_bind fun _ => steadyAhead_unexpected
  · exact steady_pure _

theorem settled_schemaExtension : Settled v 1 schemaExtension :=
  steady_peek.before fun _ => (steady_expectWord _).takes fun _ =>
    (steady_expectWord _).then fun _ => settled_directives.then fun _ =>
      (steady_optionalMany (by decide) (by decide) settled_operationType (Nat.le_refl _)).then
        fun _ => (settled_requireAny _).then fun _ => steady_node _ _ _

theorem settled_typeExtension (k : TypeKind) : Settled v 1 (typeExtension k) :=
  steady_peek.before fun _ => (steady_expectWord _).takes fun _ =>
    (steady_expectWord _).then fun _ =>
      steady_name.then fun _ => (settled_allMembers k).then fun _ =>
        (settled_requireAny _).then fun _ => steady_node _ _ _

/-- A rule that looks at the token behind the next one, which is not the end of the text. -/
theorem steadyAhead_second_bind {t : Token} (ht : t.kind ≠ .finish) {f : Token → Parse Node}
    (hf : ∀ u, u.start ≤ v.first.source.length → Steady v N n (f u) (f u)) :
    SteadyAhead v N n t (peekAt 2 >>= f) (peekAt 2 >>= f) := by
  intro ts hts hN hhead
  refine (steadyAt_peekAt 1 hts (hts.exists_second hhead ht)).bind ?_
  rintro u rest ⟨rfl, hu⟩
  exact hf u (hts.within u (List.mem_of_getElem? hu)) _ hts hN

theorem settled_typeSystemDefinition : Settled v 1 typeSystemDefinition := by
  refine steady_peek_bind fun t => ?_
  split
  · refine steadyAhead_second_bind (isString_ne_finish ‹_›) fun u hu => ?_
    dsimp only
    split
    · exact settled_schemaDefinition
    · exact settled_typeDefinition _
    · exact settled_directiveDefinition
    · exact steady_failAt hu
  · rw [pure_bind]
    dsimp only
    split
    · exact settled_schemaDefinition.ahead t
    · exact (settled_typeDefinition _).ahead t
    · exact settled_directiveDefinition.ahead t
    · exact steadyAhead_unexpected

theorem settled_typeSystemExtension {t : Token} (ht : t.isWord extendWord) :
    SteadyAhead v v.room 1 t typeSystemExtension typeSystemExtension := by
  refine steadyAhead_second_bind (Token.kind_ne_finish ht) fun u hu => ?_
  split
  · exact settled_schemaExtension
  · exact settled_typeExtension _
  · exact steady_failAt hu

theorem settled_definition : Settled v 1 definition := by
  refine steady_peek_bind fun t => ?_
  split
  · exact settled_typeSystemDefinition.ahead t
  · split
    · exact settled_typeSystemExtension ‹_›
    · exact steadyAhead_unexpected

end GraphSchema.Parse
