import GraphSchema.Parser.Document
import GraphSchema.Proofs.Node.Relabel

/-!
# Settings of the parser

A document is read with a name for it, and with or without places for its nodes. No rule looks at
this setting but the one for metadata. So a rule takes the same tokens under every setting, fails in
the same way, and makes the same nodes but for their places.

## Main definitions

* `Parser.Setting`: a name for documents, and whether nodes are given their places.
* `Parser.Setting.mark`: metadata of a node with its place, as the setting has them.
* `Parse.Carries`: what a rule makes under a setting follows from what it makes with all places.

## Main statements

* `Parse.Carries.bind`: rules in sequence.
* `Parse.carries_node`: nodes.
* `Parse.carries_value`, `Parse.carries_typeReference`, `Parse.carries_document`: whole texts.
* `Parser.Document.parse_under`, `Parser.Document.parseValue_under`,
  `Parser.Document.parseType_under`: what is read under a setting.
-/

namespace GraphSchema

namespace Parser

/-- A name for documents, if there is one, and whether nodes are given their places. -/
structure Setting where
  name : Option Text
  located : Bool

namespace Setting

/-- Metadata of a node with its place in a document without a name, as the setting has them. -/
def mark (s : Setting) (i : Metadata) : Metadata :=
  if s.located then { i with location := i.location.map fun l => { l with source := s.name } }
  else { i with span := none, location := none }

/-- A node with its place, as the setting has it. -/
abbrev node (s : Setting) : Node → Node := Node.relabel s.mark

/-- Nodes with their places, as the setting has them. -/
abbrev nodes (s : Setting) : List Node → List Node := List.map s.node

/-- Slots of nodes with their places, as the setting has them. -/
abbrev slots (s : Setting) : List Slot → List Slot := List.map (Slot.relabel s.mark)

end Setting

/-- A document with another setting. -/
def Document.under (d : Document) (s : Setting) : Document :=
  { d with name := s.name, located := s.located }

/-- A text as it is read with a setting. -/
def Setting.document (s : Setting) (source : Text) : Document :=
  .ofText source s.name s.located

/-- A text as it is read without a name and with all places. -/
def Document.plain (source : Text) : Document := .ofText source none true

theorem Setting.document_eq (s : Setting) (source : Text) :
    s.document source = (Document.plain source).under s := rfl

theorem Document.location_under (d : Document) (s : Setting) (offset : Nat) :
    (d.under s).location offset = { d.location offset with source := s.name } := by
  unfold location under
  dsimp only
  split <;> rfl

end Parser

namespace Parse

open GraphSchema.Parser (Setting)

variable {α β γ δ : Type} {s : Setting} {g : α → β} {h : γ → δ} {r : Parse α} {r' : Parse β}
  {start token : Token}

/-- What the second rule makes under a setting is what the first one makes with all places, mapped
by a function. In all else the rules do the same. -/
def Carries (s : Setting) (g : α → β) (r : Parse α) (r' : Parse β) : Prop :=
  ∀ d : Parser.Document, d.located → r' (d.under s) = g <$> r d

/-- A rule that does not depend on the setting, and makes no nodes. -/
abbrev Plain (s : Setting) (r : Parse α) : Prop := Carries s id r r

/-! ## Sequences -/

namespace Carries

theorem pure (a : α) : Carries s g (Pure.pure a) (Pure.pure (g a)) := fun _ _ => rfl

/-- The second rule goes on with what has become of the result of the first one. -/
theorem bind {f : α → Parse γ} {f' : β → Parse δ} (hr : Carries s g r r')
    (hf : ∀ a, Carries s h (f a) (f' (g a))) : Carries s h (r >>= f) (r' >>= f') := by
  intro d hd
  calc (r' >>= f') (d.under s)
      = r' (d.under s) >>= fun b => f' b (d.under s) := rfl
    _ = (g <$> r d) >>= fun b => f' b (d.under s) := by rw [hr d hd]
    _ = r d >>= fun a => f' (g a) (d.under s) := bind_map_left g (r d) _
    _ = r d >>= fun a => h <$> f a d := by simp only [hf _ d hd]
    _ = h <$> (r d >>= fun a => f a d) := (map_bind h (r d) _).symm

/-- The rules ask how much room there is. -/
theorem read_bind {f : Nat → Parse α} {f' : Nat → Parse β} (hf : ∀ n, Carries s g (f n) (f' n)) :
    Carries s g (read >>= fun d => f d.budget) (read >>= fun d => f' d.budget) :=
  fun d hd => hf d.budget d hd

theorem error (e : SyntaxError) : Carries s g (throw e) (throw e) := fun _ _ => rfl

end Carries

/-! ## Single tokens -/

theorem carries_failAtEnd : Carries s g failAtEnd failAtEnd := fun _ _ => rfl

theorem carries_failAt (token : Token) (cause : SyntaxError.Cause) :
    Carries s g (failAt token cause) (failAt token cause) := .error _

theorem carries_unexpected : Carries s g (unexpected token) (unexpected token) :=
  carries_failAt _ _

theorem plain_get : Plain s get := fun _ _ => rfl

theorem plain_modify (f : Parser → Parser) : Plain s (modify f) := fun _ _ => rfl

theorem plain_lex : Plain s lex := fun _ _ => (id_map _).symm

theorem plain_extend (n : Nat) : Plain s (extend n) := by
  induction n with
  | zero => exact .pure _
  | succ n ih =>
    refine plain_lex.bind fun t => ?_
    cases t with
    | some token => exact (plain_modify _).bind fun _ => ih
    | none =>
      refine plain_get.bind fun p => ?_
      dsimp only [id]
      split
      · exact carries_failAtEnd
      · exact .pure _

theorem plain_peekAt (n : Int) : Plain s (peekAt n) :=
  plain_get.bind fun _ => (plain_extend _).bind fun _ => plain_get.bind fun p => by
    dsimp only [id]
    split
    · exact .pure _
    · exact carries_failAtEnd

theorem plain_peek : Plain s peek := plain_peekAt 1

theorem plain_advance : Plain s advance := by
  refine plain_get.bind fun p => ?_
  dsimp only [id]
  split
  case' isTrue => refine (plain_extend 1).bind fun _ => ?_
  all_goals
    refine plain_get.bind fun p => ?_
    dsimp only [id]
    split
    · exact carries_failAtEnd
    · exact (plain_modify _).bind fun _ => .pure _

theorem plain_expect (kind : Token.Kind) : Plain s (expect kind) :=
  plain_peek.bind fun t => by
    dsimp only [id]
    split
    · exact plain_advance
    · exact carries_failAt _ _

theorem plain_expectWord (word : Text) : Plain s (expectWord word) :=
  plain_peek.bind fun t => by
    dsimp only [id]
    split
    · exact plain_advance
    · exact carries_failAt _ _

theorem plain_skip (kind : Token.Kind) : Plain s (skip kind) :=
  plain_peek.bind fun t => by
    dsimp only [id]
    split
    · exact plain_advance.bind fun _ => .pure _
    · exact .pure _

theorem plain_ahead (kind : Token.Kind) : Plain s (ahead kind) := plain_peek.bind fun _ => .pure _

/-- A rule that does one thing or another, as a token tells. -/
theorem Carries.branch {b : Parse Bool} {f : Bool → Parse α} {f' : Bool → Parse β} (hb : Plain s b)
    (hyes : Carries s g (f true) (f' true)) (hno : Carries s g (f false) (f' false)) :
    Carries s g (b >>= f) (b >>= f') :=
  hb.bind fun b => by
    cases b with
    | true => exact hyes
    | false => exact hno

/-! ## Lists -/

section Lists

variable {item : Parse α} {item' : Parse β} {stop : Parse Bool} {opening closing : Token.Kind}

theorem carries_itemsUntil (hs : Plain s stop) (hi : Carries s g item item') (fuel : Nat) :
    Carries s (List.map g) (itemsUntil stop item fuel) (itemsUntil stop item' fuel) := by
  induction fuel with
  | zero => exact carries_failAtEnd
  | succ fuel ih =>
    exact .branch hs (.pure _) (hi.bind fun _ => ih.bind fun _ => .pure _)

theorem carries_allUntil (hs : Plain s stop) (hi : Carries s g item item') :
    Carries s (List.map g) (allUntil stop item) (allUntil stop item') :=
  .read_bind fun fuel => carries_itemsUntil hs hi fuel

theorem carries_someUntil (hs : Plain s stop) (hi : Carries s g item item') :
    Carries s (List.map g) (someUntil stop item) (someUntil stop item') :=
  hi.bind fun _ => (carries_allUntil hs hi).bind fun _ => .pure _

theorem carries_many (hi : Carries s g item item') :
    Carries s (List.map g) (many opening item closing) (many opening item' closing) :=
  (plain_expect _).bind fun _ => carries_someUntil (plain_skip _) hi

theorem carries_any (hi : Carries s g item item') :
    Carries s (List.map g) (any opening item closing) (any opening item' closing) :=
  (plain_expect _).bind fun _ => carries_allUntil (plain_skip _) hi

theorem carries_delimited (hi : Carries s g item item') :
    Carries s (List.map g) (delimited opening item) (delimited opening item') :=
  (plain_skip _).bind fun _ =>
    carries_someUntil ((plain_skip _).bind fun _ => .pure _) hi

theorem carries_optionalMany (hi : Carries s g item item') :
    Carries s (List.map g) (optionalMany opening item closing)
      (optionalMany opening item' closing) :=
  .branch (plain_ahead _) (carries_many hi) (.pure _)

end Lists

/-! ## Nodes -/

/-- The one rule that looks at the setting. -/
theorem carries_metadata (start : Token) : Carries s s.mark (metadata start) (metadata start) := by
  intro d hd
  funext p
  have hmark : ∀ stop : Int, s.mark
      ⟨d.source, if d.located then some ⟨start.start, stop⟩ else none,
        if d.located then some (d.location start.start) else none,
        start.comments.map Atom.text, .text start.ignored, []⟩ =
      ⟨d.source, if s.located then some ⟨start.start, stop⟩ else none,
        if s.located then some ((d.under s).location start.start) else none,
        start.comments.map Atom.text, .text start.ignored, []⟩ := fun stop => by
    rw [if_pos hd, if_pos hd, Parser.Document.location_under, Setting.mark]
    split <;> rfl
  exact congrArg (fun i => EStateM.Result.ok i p) (hmark p.lastStop).symm

theorem carries_node {kind : Kind} {slots slots' : List Slot} (h : slots' = s.slots slots) :
    Carries s s.node (node start kind slots) (node start kind slots') :=
  (carries_metadata start).bind fun i => by
    rw [h, ← Node.relabel_mk]
    exact .pure _

/-! ## Literals -/

theorem plain_name : Plain s name := (plain_expect _).bind fun _ => .pure _

theorem carries_stringLiteral : Carries s s.node stringLiteral stringLiteral :=
  plain_advance.bind fun _ => carries_node (by simp)

section Items

variable {item item' : Parse Node}

theorem carries_listOf (hi : Carries s s.node item item') :
    Carries s s.node (listOf item) (listOf item') :=
  plain_peek.bind fun _ => (carries_any hi).bind fun _ => carries_node (by simp)

theorem carries_entryOf (kind : Kind) (hi : Carries s s.node item item') :
    Carries s s.node (entryOf kind item) (entryOf kind item') :=
  plain_peek.bind fun _ => plain_name.bind fun _ => (plain_expect _).bind fun _ =>
    hi.bind fun _ => carries_node (by simp [nameSlot])

theorem carries_objectOf (hi : Carries s s.node item item') :
    Carries s s.node (objectOf item) (objectOf item') :=
  (plain_expect _).bind fun _ => (carries_allUntil (plain_skip _) (carries_entryOf _ hi)).bind
    fun _ => carries_node (by simp)

theorem slots_wordLiteral (word : Text) : (wordLiteral word).2 = s.slots (wordLiteral word).2 := by
  unfold wordLiteral
  split
  · simp
  · split
    · simp
    · split <;> simp

theorem carries_valueOf (hi : Carries s s.node item item') :
    Carries s s.node (valueOf item) (valueOf item') :=
  plain_peek.bind fun t => by
    dsimp only [id]
    split
    · exact carries_listOf hi
    · exact carries_objectOf hi
    · exact plain_advance.bind fun _ => carries_node (by simp)
    · exact plain_advance.bind fun _ => carries_node (by simp)
    · exact carries_stringLiteral
    · exact carries_stringLiteral
    · exact plain_advance.bind fun _ => carries_node (slots_wordLiteral _)
    · exact carries_unexpected

end Items

theorem carries_valueWithin (depth : Nat) :
    Carries s s.node (valueWithin depth) (valueWithin depth) := by
  induction depth with
  | zero => exact carries_failAtEnd
  | succ depth ih => exact carries_valueOf ih

theorem carries_value : Carries s s.node value value := .read_bind carries_valueWithin

theorem carries_arguments : Carries s s.nodes arguments arguments :=
  carries_optionalMany (carries_entryOf _ carries_value)

theorem carries_directive : Carries s s.node directive directive :=
  (plain_expect _).bind fun _ => plain_name.bind fun _ => carries_arguments.bind fun _ =>
    carries_node (by simp [nameSlot])

theorem carries_directives : Carries s s.nodes directives directives :=
  carries_allUntil ((plain_ahead _).bind fun _ => .pure _) carries_directive

/-! ## References to types -/

theorem carries_namedType : Carries s s.node namedType namedType :=
  plain_peek.bind fun _ => plain_name.bind fun _ => carries_node (by simp [nameSlot])

theorem carries_typeOf {item item' : Parse Node} (hi : Carries s s.node item item') :
    Carries s s.node (typeOf item) (typeOf item') := by
  have hmark : ∀ (start : Token) (n : Node), Carries s s.node
      (skip .exclamationMark >>= fun b =>
        if b then node start .nonNullType [.child .type n] else pure n)
      (skip .exclamationMark >>= fun b =>
        if b then node start .nonNullType [.child .type (s.node n)] else pure (s.node n)) :=
    fun start n => .branch (plain_skip _) (carries_node (by simp)) (.pure n)
  refine plain_peek.bind fun start => .branch (plain_skip _) ?_ ?_
  · exact hi.bind fun _ => (plain_expect _).bind fun _ =>
      (carries_node (by simp)).bind fun n => hmark start n
  · exact carries_namedType.bind fun n => hmark start n

theorem carries_typeWithin (depth : Nat) :
    Carries s s.node (typeWithin depth) (typeWithin depth) := by
  induction depth with
  | zero => exact carries_failAtEnd
  | succ depth ih => exact carries_typeOf ih

theorem carries_typeReference : Carries s s.node typeReference typeReference :=
  .read_bind carries_typeWithin

/-! ## Members -/

/-- A node that may be absent. -/
theorem slots_optionalSlot (r : Role) (n : Option Node) :
    optionalSlot r (n.map s.node) = (optionalSlot r n).relabel s.mark := by
  cases n <;> simp [optionalSlot]

theorem carries_description : Carries s (Option.map s.node) description description :=
  plain_peek.bind fun t => by
    dsimp only [id]
    split
    · exact carries_stringLiteral.bind fun _ => .pure _
    · exact .pure none

theorem plain_operationName : Plain s operationName :=
  (plain_expect _).bind fun t => by
    dsimp only [id]
    split
    · exact .pure _
    · exact carries_unexpected

theorem carries_operationType : Carries s s.node operationType operationType :=
  plain_peek.bind fun _ => plain_operationName.bind fun _ => (plain_expect _).bind fun _ =>
    carries_namedType.bind fun _ => carries_node (by simp)

theorem carries_defaultValue : Carries s (Option.map s.node) defaultValue defaultValue :=
  .branch (plain_skip _) (carries_value.bind fun _ => .pure _) (.pure none)

theorem carries_inputValue : Carries s s.node inputValue inputValue :=
  plain_peek.bind fun _ => carries_description.bind fun _ => plain_name.bind fun _ =>
    (plain_expect _).bind fun _ => carries_typeReference.bind fun _ =>
      carries_defaultValue.bind fun _ => carries_directives.bind fun _ =>
        carries_node (by simp [nameSlot, slots_optionalSlot])

theorem carries_argumentDefinitions :
    Carries s s.nodes argumentDefinitions argumentDefinitions :=
  carries_optionalMany carries_inputValue

theorem carries_inputFields : Carries s s.nodes inputFields inputFields :=
  carries_optionalMany carries_inputValue

theorem carries_field : Carries s s.node field field :=
  plain_peek.bind fun _ => carries_description.bind fun _ => plain_name.bind fun _ =>
    carries_argumentDefinitions.bind fun _ => (plain_expect _).bind fun _ =>
      carries_typeReference.bind fun _ => carries_directives.bind fun _ =>
        carries_node (by simp [nameSlot, slots_optionalSlot])

theorem carries_fields : Carries s s.nodes fields fields := carries_optionalMany carries_field

theorem carries_enumValue : Carries s s.node enumValue enumValue := by
  have hrest : ∀ (start : Token) (description : Option Node) (name : Text), Carries s s.node
      (directives >>= fun ds => node start .enumValueDefinition
        [optionalSlot .description description, nameSlot name, .children .directives ds])
      (directives >>= fun ds => node start .enumValueDefinition
        [optionalSlot .description (description.map s.node), nameSlot name,
          .children .directives ds]) :=
    fun start description name => carries_directives.bind fun _ =>
      carries_node (by simp [nameSlot, slots_optionalSlot])
  refine plain_peek.bind fun start => carries_description.bind fun description =>
    plain_peek.bind fun token => plain_name.bind fun name => ?_
  dsimp only [id]
  split
  · exact (carries_failAt (g := id) _ _).bind fun _ => hrest start description name
  · exact hrest start description name

theorem carries_enumValues : Carries s s.nodes enumValues enumValues :=
  carries_optionalMany carries_enumValue

theorem carries_interfaces : Carries s s.nodes interfaces interfaces :=
  plain_peek.bind fun t => by
    dsimp only [id]
    split
    · exact plain_advance.bind fun _ => carries_delimited carries_namedType
    · exact .pure []

theorem carries_unionMembers : Carries s s.nodes unionMembers unionMembers :=
  .branch (plain_skip _) (carries_delimited carries_namedType) (.pure [])

theorem carries_members (k : TypeKind) (r : Role) :
    Carries s s.nodes (members k r) (members k r) := by
  unfold members
  split
  · exact carries_interfaces
  · exact carries_directives
  · split
    · exact carries_inputFields
    · exact carries_fields
  · exact carries_unionMembers
  · exact carries_enumValues
  · exact .pure []

theorem carries_mapM {α β γ : Type} {g : β → γ} {f : α → Parse β} {f' : α → Parse γ}
    (hf : ∀ a, Carries s g (f a) (f' a)) (as : List α) :
    Carries s (List.map g) (as.mapM f) (as.mapM f') := by
  induction as with
  | nil => exact .pure []
  | cons a as ih =>
    rw [List.mapM_cons, List.mapM_cons]
    exact (hf a).bind fun _ => ih.bind fun _ => .pure _

theorem carries_allMembers (k : TypeKind) : Carries s s.slots (allMembers k) (allMembers k) :=
  carries_mapM (fun r => (carries_members k r).bind fun ns => by
    rw [← Slot.relabel_children]
    exact .pure _) _

/-! ## Definitions and extensions -/

theorem carries_typeDefinition (k : TypeKind) :
    Carries s s.node (typeDefinition k) (typeDefinition k) :=
  plain_peek.bind fun _ => carries_description.bind fun _ => (plain_expectWord _).bind fun _ =>
    plain_name.bind fun _ => (carries_allMembers k).bind fun _ =>
      carries_node (by simp [nameSlot, slots_optionalSlot])

theorem carries_schemaDefinition : Carries s s.node schemaDefinition schemaDefinition :=
  plain_peek.bind fun _ => carries_description.bind fun _ => (plain_expectWord _).bind fun _ =>
    carries_directives.bind fun _ => (carries_many carries_operationType).bind fun _ =>
      carries_node (by simp [slots_optionalSlot])

theorem carries_directiveLocation : Carries s s.node directiveLocation directiveLocation :=
  plain_peek.bind fun start => plain_name.bind fun name => by
    dsimp only [id]
    split
    · exact carries_node (by simp [nameSlot])
    · exact carries_failAt _ _

theorem carries_directiveDefinition : Carries s s.node directiveDefinition directiveDefinition :=
  plain_peek.bind fun _ => carries_description.bind fun _ => (plain_expectWord _).bind fun _ =>
    (plain_expect _).bind fun _ => plain_name.bind fun _ =>
      carries_argumentDefinitions.bind fun _ => (plain_expectWord _).bind fun _ =>
        (carries_delimited carries_directiveLocation).bind fun _ =>
          carries_node (by simp [nameSlot, slots_optionalSlot])

theorem carries_typeSystemDefinition :
    Carries s s.node typeSystemDefinition typeSystemDefinition := by
  refine plain_peek.bind fun next => ?_
  dsimp only [id]
  split
  case' isTrue =>
    refine (plain_peekAt 2).bind fun token => ?_
    dsimp only [id]
  case' isFalse => rw [pure_bind]
  all_goals
    split
    · exact carries_schemaDefinition
    · exact carries_typeDefinition _
    · exact carries_directiveDefinition
    · exact carries_unexpected

/-- What an extension adds is there under all settings. -/
theorem carries_requireAny (slots : List Slot) :
    Carries s id (requireAny slots) (requireAny (s.slots slots)) := by
  have hempty : ((s.slots slots).all fun s => s.content.nodes.isEmpty)
      = slots.all fun s => s.content.nodes.isEmpty := by
    simp [List.all_map, Function.comp_def, Slot.content_relabel, Data.nodes_relabel]
  unfold requireAny
  rw [hempty]
  split
  · exact plain_peek.bind fun _ => carries_unexpected
  · exact .pure _

theorem carries_schemaExtension : Carries s s.node schemaExtension schemaExtension :=
  plain_peek.bind fun _ => (plain_expectWord _).bind fun _ => (plain_expectWord _).bind fun _ =>
    carries_directives.bind fun ds => (carries_optionalMany carries_operationType).bind fun os => by
      have hslots : [Slot.children .directives (s.nodes ds), .children .operationTypes (s.nodes os)]
          = s.slots [.children .directives ds, .children .operationTypes os] := by simp
      dsimp only
      rw [hslots]
      exact (carries_requireAny _).bind fun _ => carries_node rfl

theorem carries_typeExtension (k : TypeKind) :
    Carries s s.node (typeExtension k) (typeExtension k) :=
  plain_peek.bind fun _ => (plain_expectWord _).bind fun _ => (plain_expectWord _).bind fun _ =>
    plain_name.bind fun _ => (carries_allMembers k).bind fun _ =>
      (carries_requireAny _).bind fun _ => carries_node (by simp [nameSlot])

theorem carries_typeSystemExtension : Carries s s.node typeSystemExtension typeSystemExtension :=
  (plain_peekAt 2).bind fun t => by
    dsimp only [id]
    split
    · exact carries_schemaExtension
    · exact carries_typeExtension _
    · exact carries_unexpected

theorem carries_definition : Carries s s.node definition definition :=
  plain_peek.bind fun t => by
    dsimp only [id]
    split
    · exact carries_typeSystemDefinition
    · split
      · exact carries_typeSystemExtension
      · exact carries_unexpected

theorem carries_document : Carries s s.node document document :=
  plain_peek.bind fun _ => (plain_expect _).bind fun _ =>
    (carries_someUntil (plain_skip _) carries_definition).bind fun _ => carries_node (by simp)

theorem Carries.lone {r : Parse α} (hr : Carries s g r r') : Carries s g (lone r) (lone r') :=
  (plain_expect _).bind fun _ => hr.bind fun _ => (plain_expect _).bind fun _ => .pure _

theorem runOn_map (g : α → β) (r : Parse α) (d : Parser.Document) (p : Parser) :
    (g <$> r).runOn d p = ((r.runOn d p).1.map g, (r.runOn d p).2) := by
  have hmap : (g <$> r) d p = EStateM.map g (r d) p := rfl
  rw [runOn, runOn, hmap, EStateM.map]
  cases r d p <;> rfl

/-- Whole texts. -/
theorem Carries.run_under {r : Parse α} {r' : Parse β} (h : Carries s g r r')
    {d : Parser.Document} (hd : d.located) : r'.run (d.under s) = (r.run d).map g := by
  have hrun : r'.runOn (d.under s) (.ofText d.source) = (g <$> r).runOn d (.ofText d.source) := by
    rw [runOn, runOn, h d hd]
    rfl
  exact congrArg Prod.fst (hrun.trans (runOn_map g r d _))

end Parse

namespace Parser.Document

variable {d : Document}

/-- A document of definitions that is read under a setting. -/
theorem parse_under (hd : d.located) (s : Setting) :
    (d.under s).parse = d.parse.map s.node := Parse.carries_document.run_under hd

/-- A literal that is read under a setting. -/
theorem parseValue_under (hd : d.located) (s : Setting) :
    (d.under s).parseValue = d.parseValue.map s.node := Parse.carries_value.lone.run_under hd

/-- A reference to a type that is read under a setting. -/
theorem parseType_under (hd : d.located) (s : Setting) :
    (d.under s).parseType = d.parseType.map s.node := Parse.carries_typeReference.lone.run_under hd

end Parser.Document

end GraphSchema
