import GraphSchema.Proofs.Parser.Type

/-!
# The rules for members of definitions

What the rules for input values, fields, values of enums and operations read is what their trees
write.

## Main statements

* `Parse.writes_inputValue`, `Parse.writes_field`, `Parse.writes_enumValue`,
  `Parse.writes_operationType`: members.
* `Parse.writes_argumentDefinitions`, `Parse.writes_fields` and the like: lists of members.
-/

namespace GraphSchema.Parse

open Grammar Lexeme

variable {β : Type} {d : Parser.Document}

/-! ## What follows -/

/-- There is a next lexeme, and it is none of `ks`. -/
def AvoidsAll (ks : List Lexeme) (ls : List Lexeme) : Prop := ∃ m, ls.head? = some m ∧ m ∉ ks

@[simp] theorem avoidsAll_cons {ks : List Lexeme} {m : Lexeme} {ls : List Lexeme} :
    AvoidsAll ks (m :: ls) ↔ m ∉ ks := by
  simp [AvoidsAll]

theorem AvoidsAll.avoids {ks ls : List Lexeme} {l : Lexeme} (h : AvoidsAll ks ls) (hl : l ∈ ks) :
    Avoids l ls := by
  obtain ⟨m, hm, hks⟩ := h
  refine ⟨m, hm, ?_⟩
  intro hread
  subst hread
  exact hks hl

/-- What opens a further part of a member. -/
def memberParts : List Lexeme :=
  [symbol .exclamationMark, symbol .equals, symbol .parenOpen, symbol .sign]

theorem avoids_applied {l : Lexeme} {rest : List Lexeme} (ds : List Directive)
    (h : Avoids l rest) (hl : symbol .sign ≠ l) : Avoids l (applied ds ++ rest) := by
  cases ds with
  | nil => exact h
  | cons e es => simpa [applied, Directive.lexemes] using hl

theorem avoids_defaulted {l : Lexeme} {rest : List Lexeme} (v : Option Value) (h : Avoids l rest)
    (hl : symbol .equals ≠ l) : Avoids l (defaulted v ++ rest) := by
  cases v with
  | none => exact h
  | some v => simpa [defaulted] using hl

theorem avoids_enclosed {o c : Token.Kind} {W : β → List Lexeme} {l : Lexeme}
    {rest : List Lexeme} (bs : List β) (h : Avoids l rest) (hl : symbol o ≠ l) :
    Avoids l (enclosed o c W bs ++ rest) := by
  cases bs with
  | nil => exact h
  | cons b bs => simpa [enclosed] using hl

theorem Writes.reads {α : Type} {r : Parse α} {V : α → β → Prop} {W : β → List Lexeme}
    {F : List Lexeme → Prop} (h : Writes d d.budget r V W F) :
    Reads d r V (fun ls b rest => ls = W b ++ rest) fun ls b rest => ls = W b ++ rest ∧ F rest :=
  h.conseq (fun _ _ _ h => h) fun _ _ _ hl h => ⟨h.1, h.2, hl⟩

/-! ## Descriptions and defaults -/

/-- A node that may be absent shows a tree that may be absent. -/
def ShowsOptional (f : β → Node) (n : Option Node) (b : Option β) : Prop :=
  n.map Node.plain = b.map f

theorem ShowsOptional.some {f : β → Node} {n : Node} {b : β} (h : Shows f n b) :
    ShowsOptional f (some n) (some b) := congrArg Option.some h

theorem plain_optionalSlot (r : Role) (n : Option Node) :
    (optionalSlot r n).plain = optionalSlot r (n.map Node.plain) := by
  cases n <;> simp [optionalSlot]

/-- There is a next lexeme, and it is not a string. -/
def Unquoted (ls : List Lexeme) : Prop := ∃ m, ls.head? = some m ∧ ¬m.kind.isString

theorem unquoted_word (w : Text) (rest : List Lexeme) : Unquoted (word w :: rest) :=
  ⟨_, rfl, by simp [word, Token.Kind.isString]⟩

theorem Quoted.isString_kind_lexeme (s : Quoted) : s.lexeme.kind.isString := by
  rw [Quoted.lexeme]
  cases s.block <;> rfl

theorem reads_description :
    Reads d description (ShowsOptional Quoted.node)
      (fun ls s rest => ls = described s ++ rest)
      fun ls s rest => ls = described s ++ rest ∧ Unquoted rest := by
  have hnone : ShowsOptional Quoted.node none none := rfl
  have hkind : ∀ {t : Token} {l : Lexeme}, Says t l → (t.kind.isString ↔ l.kind.isString) := by
    intro t l hread
    subst hread
    rw [kind_lexeme]
  refine (reads_peek.bind fun t l h => .ite (hkind h) (fun _ => reads_stringLiteral.bind
    fun _ _ hs => reads_pure (.some hs))
    fun _ => reads_pure hnone).conseq ?_ ?_
  · intro ls s rest hread
    obtain ⟨l, mid, ⟨rfl, hl⟩, ⟨hk, s, mid', ⟨l', rfl, hs⟩, rfl, rfl⟩ | ⟨-, rfl, rfl⟩⟩ := hread
    · obtain rfl : l' = l := by simpa using hl
      rw [hs hk]
      rfl
    · rfl
  · intro ls s rest _ hread
    obtain ⟨rfl, m, hm, hk⟩ := hread
    cases s with
    | none => exact ⟨m, rest, ⟨rfl, hm⟩, .inr ⟨hk, rfl, rfl⟩⟩
    | some s =>
      exact ⟨s.lexeme, _, ⟨rfl, rfl⟩, .inl ⟨Quoted.isString_kind_lexeme s, s, rest, rfl, rfl, rfl⟩⟩

theorem reads_defaultValue :
    Reads d defaultValue (ShowsOptional Value.node)
      (fun ls v rest => ls = defaulted v ++ rest)
      fun ls v rest => ls = defaulted v ++ rest ∧ Avoids (symbol .equals) rest := by
  have hnone : ShowsOptional Value.node none none := rfl
  refine ((reads_skip (k := .equals) rfl).bind fun b b' h => .ite (Bool.coe_iff_coe.2 h)
    (fun _ => writes_value.reads.bind fun _ _ hv => reads_pure (.some hv))
    fun _ => reads_pure hnone).conseq ?_ ?_
  · intro ls v rest hread
    obtain ⟨b, mid, hb, ⟨rfl, v, mid', rfl, rfl, rfl⟩ | ⟨hne, rfl, rfl⟩⟩ := hread
    · exact hb
    · rw [if_neg hne] at hb
      exact hb.1.symm
  · intro ls v rest _ hread
    obtain ⟨rfl, ha⟩ := hread
    cases v with
    | none => exact ⟨false, rest, ⟨rfl, ha⟩, .inr ⟨by simp, rfl, rfl⟩⟩
    | some v => exact ⟨true, _, rfl, .inl ⟨rfl, v, rest, ⟨rfl, trivial⟩, rfl, rfl⟩⟩

/-! ## Input values -/

theorem writes_inputValue :
    Writes d d.budget inputValue (Shows InputValue.node) InputValue.lexemes
      (AvoidsAll memberParts) := by
  refine (reads_start.bind fun start _ _ => reads_description.bind fun s s' hs =>
    reads_name.bind fun w w' hw => (reads_symbol (k := .colon) rfl).bind fun _ _ _ =>
    writes_typeReference.reads.bind fun t t' ht => reads_defaultValue.bind fun v v' hv =>
    writes_directives.reads.bind fun ds ds' hds =>
    reads_node (b := InputValue.mk s' w' t' v' ds') ?_).conseq ?_ ?_
  · rw [InputValue.node, descriptionSlot, directivesSlot, ← hs, hw, ← ht, ← hv,
      ← Forall₂.map_plain hds]
    simp [plain_optionalSlot, nameSlot]
  · intro ls i rest h
    obtain ⟨-, ls, ⟨rfl, -⟩, s, ls₁, rfl, w, ls₂, rfl, -, ls₃, rfl, t, ls₄, rfl, v, ls₅, rfl, ds,
      ls₆, rfl, rfl, rfl⟩ := h
    simp [InputValue.lexemes]
  · intro ls x rest _ hread
    obtain ⟨s, w, t, v, ds⟩ := x
    obtain ⟨rfl, hF, -⟩ := hread
    have hmark := avoids_defaulted v (avoids_applied ds
      (hF.avoids (l := symbol .exclamationMark) (by decide)) (by decide)) (by decide)
    have hequals := avoids_applied ds (hF.avoids (l := symbol .equals) (by decide)) (by decide)
    simp only [InputValue.lexemes, List.append_assoc, List.cons_append]
    exact ⟨(), _, ⟨rfl, by simp⟩, s, _, ⟨rfl, unquoted_word _ _⟩, w, _, rfl, (), _, rfl,
      t, _, ⟨rfl, hmark⟩, v, _, ⟨rfl, hequals⟩, ds, rest,
      ⟨rfl, hF.avoids (by decide), hF.avoids (by decide)⟩, rfl, rfl⟩

/-! ## Lists of members -/

/-- A member starts with a string or a name. -/
theorem avoidsAll_described {ks : List Lexeme} (hks : ∀ l ∈ ks, l.kind ≠ .name ∧ ¬l.kind.isString)
    (s : Option Quoted) (w : Text) (rest : List Lexeme) :
    AvoidsAll ks (described s ++ word w :: rest) := by
  cases s with
  | none => exact avoidsAll_cons.2 fun h => (hks _ h).1 rfl
  | some s => exact avoidsAll_cons.2 fun h => (hks _ h).2 (Quoted.isString_kind_lexeme s)

/-- Members in a list that symbols enclose. -/
theorem Writes.members {item : Parse Node} {f : β → Node} {W : β → List Lexeme}
    {o c : Token.Kind} (hi : Writes d d.budget item (Shows f) W (AvoidsAll memberParts))
    (hW : ∀ b, ∃ s w ls, W b = described s ++ word w :: ls) (ho : IsSymbol o) (hc : IsSymbol c)
    (hk : c ≠ .name ∧ ¬c.isString ∧ symbol c ∉ memberParts) :
    Writes d d.budget (Parse.optionalMany o item c) (List.Forall₂ (Shows f)) (enclosed o c W)
      (Avoids (symbol o)) := by
  refine hi.optionalMany ho hc ?_ ?_ fun rest => avoidsAll_cons.2 hk.2.2
  · intro b rest
    obtain ⟨s, w, ls, h⟩ := hW b
    rw [h, List.append_assoc]
    have hc' : ∀ l ∈ [symbol c], l.kind ≠ .name ∧ ¬l.kind.isString := by
      intro l hl
      obtain rfl := List.mem_singleton.1 hl
      exact ⟨hk.1, hk.2.1⟩
    exact (avoidsAll_described hc' s w _).avoids List.mem_cons_self
  · intro b rest
    obtain ⟨s, w, ls, h⟩ := hW b
    rw [h, List.append_assoc]
    exact avoidsAll_described (by decide) s w _

theorem InputValue.exists_lexemes_eq (i : InputValue) :
    ∃ s w ls, i.lexemes = described s ++ word w :: ls :=
  ⟨i.description, i.name, _, by
    simp only [InputValue.lexemes, List.append_assoc, List.cons_append]; rfl⟩

theorem writes_argumentDefinitions :
    Writes d d.budget argumentDefinitions (List.Forall₂ (Shows InputValue.node)) parameters
      (Avoids (symbol .parenOpen)) :=
  .members writes_inputValue InputValue.exists_lexemes_eq rfl rfl (by decide)

theorem writes_inputFields :
    Writes d d.budget inputFields (List.Forall₂ (Shows InputValue.node))
      (enclosed .curlyOpen .curlyClose InputValue.lexemes) (Avoids (symbol .curlyOpen)) :=
  .members writes_inputValue InputValue.exists_lexemes_eq rfl rfl (by decide)

/-! ## Fields -/

theorem writes_field :
    Writes d d.budget field (Shows Field.node) Field.lexemes (AvoidsAll memberParts) := by
  refine (reads_start.bind fun start _ _ => reads_description.bind fun s s' hs =>
    reads_name.bind fun w w' hw => (Writes.reads writes_argumentDefinitions).bind fun as as' has =>
    (reads_symbol (k := .colon) rfl).bind fun _ _ _ =>
    writes_typeReference.reads.bind fun t t' ht => writes_directives.reads.bind fun ds ds' hds =>
    reads_node (b := Grammar.Field.mk s' w' as' t' ds') ?_).conseq ?_ ?_
  · rw [Field.node, descriptionSlot, directivesSlot, ← hs, hw, ← ht, ← Forall₂.map_plain has,
      ← Forall₂.map_plain hds]
    simp [plain_optionalSlot, nameSlot]
  · intro ls i rest h
    obtain ⟨-, ls, ⟨rfl, -⟩, s, ls₁, rfl, w, ls₂, rfl, as, ls₃, rfl, -, ls₄, rfl, t, ls₅, rfl, ds,
      ls₆, rfl, rfl, rfl⟩ := h
    simp [Field.lexemes]
  · intro ls x rest _ hread
    obtain ⟨s, w, as, t, ds⟩ := x
    obtain ⟨rfl, hF, -⟩ := hread
    have hmark := avoids_applied ds (hF.avoids (l := symbol .exclamationMark) (by decide))
      (by decide)
    simp only [Field.lexemes, List.append_assoc, List.cons_append]
    exact ⟨(), _, ⟨rfl, by simp⟩, s, _, ⟨rfl, unquoted_word _ _⟩, w, _, rfl,
      as, _, ⟨rfl, by simp [symbol]⟩, (), _, rfl, t, _, ⟨rfl, hmark⟩, ds, rest,
      ⟨rfl, hF.avoids (by decide), hF.avoids (by decide)⟩, rfl, rfl⟩

theorem Field.exists_lexemes_eq (f : Field) :
    ∃ s w ls, f.lexemes = described s ++ word w :: ls :=
  ⟨f.description, f.name, _, by
    simp only [Field.lexemes, List.append_assoc, List.cons_append]; rfl⟩

theorem writes_fields :
    Writes d d.budget fields (List.Forall₂ (Shows Field.node))
      (enclosed .curlyOpen .curlyClose Field.lexemes) (Avoids (symbol .curlyOpen)) :=
  .members writes_field Field.exists_lexemes_eq rfl rfl (by decide)

/-! ## Values of enums -/

theorem writes_enumValue :
    Writes d d.budget enumValue (Shows EnumValue.node) EnumValue.lexemes
      (AvoidsAll memberParts) := by
  have hrest : ∀ (start : Token) (s : Option Node) (s' : Option Quoted) (w w' : Text),
      ShowsOptional Quoted.node s s' → w = w' → w' ∉ reservedValues → Reads d
        (directives >>= fun ds => node start .enumValueDefinition
          [optionalSlot .description s, nameSlot w, .children .directives ds])
        (Shows EnumValue.node)
        (fun ls v rest => v.description = s' ∧ v.name = w' ∧ ls = applied v.directives ++ rest)
        fun ls v rest => v.description = s' ∧ v.name = w' ∧ ls = applied v.directives ++ rest ∧
          AvoidsAll memberParts rest := by
    intro start s s' w w' hs hread hw
    subst hread
    refine (writes_directives.reads.bind fun ds ds' hds =>
      reads_node (b := EnumValue.mk s' ⟨w, hw⟩ ds') ?_).conseq ?_ ?_
    · rw [EnumValue.node, descriptionSlot, directivesSlot, ← hs, ← Forall₂.map_plain hds]
      simp [plain_optionalSlot, nameSlot]
    · intro ls v rest hread
      obtain ⟨ds, mid, rfl, rfl, rfl⟩ := hread
      exact ⟨rfl, rfl, rfl⟩
    · intro ls x rest _ hwritten
      obtain ⟨s, w, ds⟩ := x
      obtain ⟨rfl, rfl, rfl, hF⟩ := hwritten
      exact ⟨ds, rest, ⟨rfl, hF.avoids (by decide), hF.avoids (by decide)⟩, rfl, rfl⟩
  refine (reads_start.bind fun start _ _ => reads_description.bind fun s s' hs =>
    reads_start.bind fun token _ _ => reads_name.bind fun w w' hw =>
    .ite (by rw [hw] : w ∈ reservedValues ↔ w' ∈ reservedValues)
      (fun _ => reads_fail (by rintro p a q ⟨⟩))
      fun h => hrest start s s' w w' hs hw h).conseq ?_ ?_
  · intro ls v rest hread
    obtain ⟨-, ls, ⟨rfl, -⟩, s, ls₁, rfl, -, ls₂, ⟨rfl, -⟩, w, ls₃, rfl, ⟨-, ⟨⟩⟩ | ⟨-, rfl, rfl,
      rfl⟩⟩ := hread
    simp [EnumValue.lexemes]
  · intro ls x rest _ hwritten
    obtain ⟨s, w, ds⟩ := x
    obtain ⟨rfl, hF, -⟩ := hwritten
    simp only [EnumValue.lexemes, List.append_assoc, List.cons_append]
    exact ⟨(), _, ⟨rfl, by simp⟩, s, _, ⟨rfl, unquoted_word _ _⟩, (), _, ⟨rfl, by simp⟩, w, _, rfl,
      .inr ⟨w.2, rfl, rfl, rfl, hF⟩⟩

theorem EnumValue.exists_lexemes_eq (v : EnumValue) :
    ∃ s w ls, v.lexemes = described s ++ word w :: ls :=
  ⟨v.description, v.name, _, rfl⟩

theorem writes_enumValues :
    Writes d d.budget enumValues (List.Forall₂ (Shows EnumValue.node))
      (enclosed .curlyOpen .curlyClose EnumValue.lexemes) (Avoids (symbol .curlyOpen)) :=
  .members writes_enumValue EnumValue.exists_lexemes_eq rfl rfl (by decide)

/-! ## Operations -/

theorem reads_operationName :
    ReadsExactly d operationName Eq fun ls o rest => o ∈ operationNames ∧ ls = word o :: rest := by
  refine (reads_word.bind fun t o h => .ite (by rw [h.value_eq] : t.value ∈ operationNames ↔
    o ∈ operationNames) (fun _ => reads_pure h.value_eq) fun _ => reads_unexpected).congr
    fun ls o rest => ?_
  constructor
  · intro hread
    obtain ⟨o, mid, rfl, ⟨h, rfl, rfl⟩ | ⟨-, ⟨⟩⟩⟩ := hread
    exact ⟨h, rfl⟩
  · intro hread
    obtain ⟨h, rfl⟩ := hread
    exact ⟨o, rest, rfl, .inl ⟨h, rfl, rfl⟩⟩

theorem reads_operationType :
    ReadsExactly d operationType (Shows OperationType.node) fun ls o rest =>
      ls = o.lexemes ++ rest := by
  refine (reads_start.bind fun start _ _ => reads_operationName.subtype.bind fun o o' ho =>
    (reads_symbol (k := .colon) rfl).bind fun _ _ _ => reads_namedType.bind fun t t' ht =>
    reads_node (b := OperationType.mk o' t') ?_).congr fun ls o rest => ?_
  · rw [OperationType.node, ho, ← ht]
    simp
  · constructor
    · intro h
      obtain ⟨-, ls, ⟨rfl, -⟩, o, ls₁, rfl, -, ls₂, rfl, t, ls₃, rfl, rfl, rfl⟩ := h
      rfl
    · intro h
      subst h
      exact ⟨(), _, ⟨rfl, by simp [OperationType.lexemes]⟩, o.operation, _, rfl, (), _, rfl,
        o.type, rest, rfl, rfl, rfl⟩

theorem writes_operationType :
    Writes d d.budget operationType (Shows OperationType.node) OperationType.lexemes Free :=
  .conseq reads_operationType (fun _ _ _ h => h) fun _ _ _ _ h => h.1

end GraphSchema.Parse
