import GraphSchema.Proofs.Parser.Contents

/-!
# The rules for definitions and extensions

What the rules for definitions and extensions read is what their trees write. Which rule is taken
is settled by the first two tokens.

## Main statements

* `Parse.writes_definition`: definitions and extensions.
-/

namespace GraphSchema

namespace Grammar

open Lexeme (symbol word)

/-- The word that says what is defined or extended. -/
def Definition.keyword : Definition → Keyword
  | schema .. => .schema
  | type _ _ _ body => .type body.kind
  | directive .. => .directive
  | schemaExtension .. => .schema
  | typeExtension _ _ body _ => .type body.kind

/-- The definition is an extension. -/
def Definition.isExtension : Definition → Bool
  | schemaExtension .. => true
  | typeExtension .. => true
  | _ => false

/-- A definition with a choice of delimiters in front. -/
abbrev Written := Bool × Definition

namespace Written

/-- The node of a definition. -/
def node (x : Written) : Node := x.2.node

/-- The lexemes of a definition. -/
def lexemes (x : Written) : List Lexeme := x.2.lexemes x.1

end Written

end Grammar

namespace Parse

open Grammar Lexeme

variable {d : Parser.Document}

theorem avoids_operations {l : Lexeme} {rest : List Lexeme} (os : List OperationType)
    (hl : l ∈ definitionParts) (hne : symbol .curlyOpen ≠ l) (h : AvoidsAll definitionParts rest) :
    Avoids l (operations os ++ rest) :=
  avoids_enclosed os (h.avoids hl) hne

/-- What the rule for definitions that a word opens reads. -/
abbrev ReadsDefinition (d : Parser.Document) (k : Keyword) (extension : Bool)
    (rule : Parse Node) : Prop :=
  Reads d rule (Shows Written.node) (fun ls x rest => ls = x.lexemes ++ rest)
    fun ls x rest => x.2.keyword = k ∧ x.2.isExtension = extension ∧ ls = x.lexemes ++ rest ∧
      AvoidsAll definitionParts rest

theorem reads_typeDefinition (k : TypeKind) :
    ReadsDefinition d (.type k) false (typeDefinition k) := by
  refine (reads_start.bind fun start _ _ => reads_description.bind fun s s' hs =>
    (reads_expectWord _).bind fun _ _ _ => reads_name.bind fun w w' hw =>
    (reads_allMembers k).subtype.bind fun slots c hc => reads_node
      (b := (c.val.leading, Definition.type s' w' c.val.directives c.val.body)) ?_).conseq ?_ ?_
  · obtain ⟨c, rfl⟩ := c
    rw [Written.node, Definition.node, descriptionSlot, ← hs, hw, ← hc]
    simp [plain_optionalSlot, nameSlot]
  · intro ls x rest h
    obtain ⟨-, ls, ⟨rfl, -⟩, s, ls₁, rfl, -, ls₂, rfl, w, ls₃, rfl, ⟨c, rfl⟩, ls₄, rfl, rfl, rfl⟩
      := h
    simp [Written.lexemes, Definition.lexemes, typeLexemes, Contents.lexemes]
  · intro ls written rest _ hread
    obtain ⟨leading, x⟩ := written
    obtain ⟨hk, hx, rfl, hF⟩ := hread
    cases x with
    | type s w ds body =>
      cases hk
      simp only [Written.lexemes, Definition.lexemes, typeLexemes, List.append_assoc,
        List.cons_append]
      exact ⟨(), _, ⟨rfl, by simp⟩, s, _, ⟨rfl, unquoted_word _ _⟩, (), _, rfl, w, _, rfl,
        ⟨⟨leading, ds, body⟩, rfl⟩, rest, ⟨by simp [Contents.lexemes], hF⟩, rfl, rfl⟩
    | schema => cases hk
    | directive => cases hk
    | schemaExtension => cases hx
    | typeExtension => cases hx

theorem reads_someOperations :
    ReadsExactly d (many .curlyOpen operationType .curlyClose)
      (List.Forall₂ (Shows OperationType.node))
      fun ls os rest => os ≠ [] ∧ ls = operations os ++ rest :=
  ((writes_operationType (d := d)).many (o := .curlyOpen) (c := .curlyClose) rfl rfl
    (by simp [OperationType.lexemes, word, symbol]) (fun _ _ => trivial) fun _ => trivial).conseq
    (fun _ _ _ h => h) fun _ _ _ hl h => ⟨h.1, h.2, hl⟩

theorem reads_schemaDefinition : ReadsDefinition d .schema false schemaDefinition := by
  refine (reads_start.bind fun start _ _ => reads_description.bind fun s s' hs =>
    (reads_expectWord _).bind fun _ _ _ => writes_directives.reads.bind fun ds ds' hds =>
    reads_someOperations.subtype.bind fun os os' hos => reads_node_of
      (p := fun x : Written => x.2 = .schema s' ds' os'.val os'.property)
      ⟨⟨false, _⟩, rfl⟩ ?_).conseq ?_ ?_
  · intro h hread
    obtain ⟨leading, x⟩ := h
    subst hread
    rw [Written.node, Definition.node, schemaSlots, descriptionSlot, directivesSlot, ← hs,
      ← Forall₂.map_plain hds, ← Forall₂.map_plain hos]
    simp [plain_optionalSlot]
  · intro ls written rest hread
    obtain ⟨leading, x⟩ := written
    obtain ⟨-, ls, ⟨rfl, -⟩, s, ls₁, rfl, -, ls₂, rfl, ds, ls₃, rfl, os, ls₄, rfl, rfl, rfl⟩ :=
      hread
    simp [Written.lexemes, Definition.lexemes]
  · intro ls written rest _ hread
    obtain ⟨leading, x⟩ := written
    obtain ⟨hk, hx, rfl, hF⟩ := hread
    cases x with
    | schema s ds os hos =>
      simp only [Written.lexemes, Definition.lexemes, List.append_assoc, List.cons_append]
      exact ⟨(), _, ⟨rfl, by simp⟩, s, _, ⟨rfl, unquoted_word _ _⟩, (), _, rfl, ds, _,
        ⟨rfl, avoids_operations os (by decide) (by decide) hF,
          avoids_operations os (by decide) (by decide) hF⟩, ⟨os, hos⟩, rest, rfl, rfl, rfl⟩
    | type => cases hk
    | directive => cases hk
    | schemaExtension => cases hx
    | typeExtension => cases hx

/-! ## Directives -/

theorem reads_directiveLocation :
    ReadsExactly d directiveLocation (Shows locationNode)
      fun ls l rest => ls = word l.val :: rest := by
  have hraw : ReadsExactly d directiveLocation
      (Shows fun w : Text => .mk .directiveLocation .none [nameSlot w]) fun ls w rest =>
        w.capital ∈ directiveLocationNames ∧ ls = word w :: rest := by
    refine (reads_start.bind fun start _ _ => reads_name.bind fun w w' hw => .ite
      (by rw [hw] : w.capital ∈ directiveLocationNames ↔ w'.capital ∈ directiveLocationNames)
      (fun _ => reads_node (b := w') (by simp [hw, nameSlot])) fun _ => reads_failAt).congr
      fun ls w rest => ?_
    constructor
    · intro h
      obtain ⟨-, ls, ⟨rfl, -⟩, w, ls₁, rfl, ⟨hw, rfl, rfl⟩ | ⟨-, ⟨⟩⟩⟩ := h
      exact ⟨hw, rfl⟩
    · intro h
      obtain ⟨hw, rfl⟩ := h
      exact ⟨(), _, ⟨rfl, by simp⟩, w, rest, rfl, .inl ⟨hw, rfl, rfl⟩⟩
  exact hraw.subtype

theorem reads_directiveLocations :
    Reads d directiveLocations
      (fun ns (x : Bool × List Location) => List.Forall₂ (Shows locationNode) ns x.2)
      (fun ls x rest => x.2 ≠ [] ∧
        ls = Grammar.delimited .pipe x.1 (x.2.map fun l => word l.val) ++ rest)
      fun ls x rest => x.2 ≠ [] ∧
        ls = Grammar.delimited .pipe x.1 (x.2.map fun l => word l.val) ++ rest ∧
        Avoids (symbol .pipe) rest :=
  Writes.delimited reads_directiveLocation rfl (by simp [word, symbol])

theorem reads_directiveDefinition : ReadsDefinition d .directive false directiveDefinition := by
  refine (reads_start.bind fun start _ _ => reads_description.bind fun s s' hs =>
    (reads_expectWord _).bind fun _ _ _ => (reads_symbol (k := .sign) rfl).bind fun _ _ _ =>
    reads_name.bind fun w w' hw => writes_argumentDefinitions.reads.bind fun as as' has =>
    (reads_expectWord _).bind fun _ _ _ => reads_directiveLocations.subtype.bind fun os os' hos =>
    reads_node (b := (os'.val.1, Definition.directive s' w' as' os'.val.2 os'.property))
      ?_).conseq ?_ ?_
  · rw [Written.node, Definition.node, descriptionSlot, ← hs, hw, ← Forall₂.map_plain has,
      ← Forall₂.map_plain hos]
    simp [plain_optionalSlot, nameSlot]
  · intro ls x rest h
    obtain ⟨-, ls, ⟨rfl, -⟩, s, ls₁, rfl, -, ls₂, rfl, -, ls₃, rfl, w, ls₄, rfl, as, ls₅, rfl, -,
      ls₆, rfl, os, ls₇, rfl, rfl, rfl⟩ := h
    simp [Written.lexemes, Definition.lexemes]
  · intro ls written rest _ hread
    obtain ⟨leading, x⟩ := written
    obtain ⟨hk, hx, rfl, hF⟩ := hread
    cases x with
    | directive s w as os hos =>
      simp only [Written.lexemes, Definition.lexemes, List.append_assoc, List.cons_append]
      exact ⟨(), _, ⟨rfl, by simp⟩, s, _, ⟨rfl, unquoted_word _ _⟩, (), _, rfl, (), _, rfl,
        w, _, rfl, as, _, ⟨rfl, by simp [word, symbol]⟩, (), _, rfl, ⟨(leading, os), hos⟩, rest,
        ⟨rfl, hF.avoids (by decide)⟩, rfl, rfl⟩
    | type => cases hk
    | schema => cases hk
    | schemaExtension => cases hx
    | typeExtension => cases hx

/-! ## Extensions -/

/-- Nothing is added. -/
def Bare (slots : List Slot) : Prop := ∀ s ∈ slots, s.content.nodes = []

theorem reads_requireAny {slots : List Slot} {e : Prop} (h : Bare (slots.map Slot.plain) ↔ e) :
    ReadsExactly d (requireAny slots) Any fun ls _ rest => ¬e ∧ rest = ls := by
  have hall : (slots.all fun s => s.content.nodes.isEmpty) = true ↔ e := by
    simp [← h, Bare, Slot.content_plain, Data.nodes_plain]
  have hunit : Any () () := trivial
  refine (Reads.ite hall (fun _ => reads_fail ?_) fun _ => reads_pure hunit).congr
    fun ls u rest => by simp
  intro p a q hr
  obtain ⟨t, q', -, hfail⟩ := bind_eq_ok.1 hr
  cases hfail

theorem bare_schemaSlots (ds : List Directive) (os : List OperationType) :
    Bare (schemaSlots ds os) ↔ ds = [] ∧ os = [] := by
  simp [Bare, schemaSlots, directivesSlot]

theorem bare_slots (ds : List Directive) (b : Body) :
    Bare (b.slots ds) ↔ ds = [] ∧ b.IsEmpty := by
  cases b with
  | object interfaces fields =>
    simpa [Bare, Body.slots, directivesSlot, Body.IsEmpty] using and_left_comm
  | _ => simp [Bare, Body.slots, directivesSlot, Body.IsEmpty]

theorem writes_someOperations :
    Writes d d.budget (optionalMany .curlyOpen operationType .curlyClose)
      (List.Forall₂ (Shows OperationType.node)) operations (Avoids (symbol .curlyOpen)) :=
  writes_operationType.optionalMany rfl rfl (by simp [OperationType.lexemes, word, symbol])
    (fun _ _ => trivial) fun _ => trivial

theorem reads_schemaExtension : ReadsDefinition d .schema true schemaExtension := by
  refine (reads_start.bind fun start _ _ => (reads_expectWord _).bind fun _ _ _ =>
    (reads_expectWord _).bind fun _ _ _ => writes_directives.reads.bind fun ds ds' hds =>
    writes_someOperations.reads.bind fun os os' hos =>
    (reads_requireAny (e := ds' = [] ∧ os' = []) ?_).subtype.bind fun u u' _ => reads_node_of
      (p := fun x : Written => x.2 = .schemaExtension ds' os' (not_and_or.1 u'.property))
      ⟨⟨false, _⟩, rfl⟩ ?_).conseq ?_ ?_
  · rw [← bare_schemaSlots, schemaSlots, directivesSlot, ← Forall₂.map_plain hds,
      ← Forall₂.map_plain hos]
    simp
  · intro h hread
    obtain ⟨leading, x⟩ := h
    subst hread
    rw [Written.node, Definition.node, schemaSlots, directivesSlot, ← Forall₂.map_plain hds,
      ← Forall₂.map_plain hos]
    simp
  · intro ls written rest hread
    obtain ⟨leading, x⟩ := written
    obtain ⟨-, ls, ⟨rfl, -⟩, -, ls₁, rfl, -, ls₂, rfl, ds, ls₃, rfl, os, ls₄, rfl, u, ls₅, rfl,
      rfl, rfl⟩ := hread
    simp [Written.lexemes, Definition.lexemes]
  · intro ls written rest _ hread
    obtain ⟨leading, x⟩ := written
    obtain ⟨hk, hx, rfl, hF⟩ := hread
    cases x with
    | schemaExtension ds os hne =>
      simp only [Written.lexemes, Definition.lexemes, List.append_assoc, List.cons_append]
      exact ⟨(), _, ⟨rfl, by simp⟩, (), _, rfl, (), _, rfl, ds, _,
        ⟨rfl, avoids_operations os (by decide) (by decide) hF,
          avoids_operations os (by decide) (by decide) hF⟩, os, rest,
        ⟨rfl, hF.avoids (by decide)⟩, ⟨(), not_and_or.2 hne⟩, rest, rfl, rfl, rfl⟩
    | typeExtension => cases hk
    | schema => cases hx
    | type => cases hx
    | directive => cases hx

theorem reads_typeExtension (k : TypeKind) :
    ReadsDefinition d (.type k) true (typeExtension k) := by
  refine (reads_start.bind fun start _ _ => (reads_expectWord _).bind fun _ _ _ =>
    (reads_expectWord _).bind fun _ _ _ => reads_name.bind fun w w' hw =>
    (reads_allMembers k).subtype.bind fun slots c hc =>
    (reads_requireAny (e := c.val.directives = [] ∧ c.val.body.IsEmpty) ?_).subtype.bind
      fun u u' _ => reads_node (b := (c.val.leading,
        Definition.typeExtension w' c.val.directives c.val.body (not_and_or.1 u'.property)))
        ?_).conseq ?_ ?_
  · rw [hc, bare_slots]
  · obtain ⟨c, rfl⟩ := c
    rw [Written.node, Definition.node, hw, ← hc]
    simp [nameSlot]
  · intro ls x rest h
    obtain ⟨-, ls, ⟨rfl, -⟩, -, ls₁, rfl, -, ls₂, rfl, w, ls₃, rfl, ⟨c, rfl⟩, ls₄, rfl, u, ls₅,
      rfl, rfl, rfl⟩ := h
    simp [Written.lexemes, Definition.lexemes, typeLexemes, Contents.lexemes]
  · intro ls written rest _ hread
    obtain ⟨leading, x⟩ := written
    obtain ⟨hk, hx, rfl, hF⟩ := hread
    cases x with
    | typeExtension w ds body hne =>
      cases hk
      simp only [Written.lexemes, Definition.lexemes, typeLexemes, List.append_assoc,
        List.cons_append]
      exact ⟨(), _, ⟨rfl, by simp⟩, (), _, rfl, (), _, rfl, w, _, rfl, ⟨⟨leading, ds, body⟩, rfl⟩,
        rest, ⟨by simp [Contents.lexemes], hF⟩, ⟨(), not_and_or.2 hne⟩, rest, rfl, rfl, rfl⟩
    | schemaExtension => cases hk
    | schema => cases hx
    | type => cases hx
    | directive => cases hx

/-! ## The first two tokens -/

/-- The word that a lexeme is. -/
def keyword? (l : Lexeme) : Option Keyword := Keyword.all.find? fun k => l = word k.spelling

theorem Says.ofToken? {t : Token} {l : Lexeme} (h : Says t l) :
    Keyword.ofToken? t = keyword? l := by
  have heq : ∀ k : Keyword, t.isWord k.spelling = decide (l = word k.spelling) :=
    fun k => Bool.eq_iff_iff.2 (by simpa using h.isWord_iff k.spelling)
  simp only [Keyword.ofToken?, keyword?, heq]

theorem keyword?_word (k : Keyword) : keyword? (word k.spelling) = some k := by
  cases k with
  | type k => cases k <;> decide
  | _ => decide

theorem exists_lexemes_eq_of_not_isExtension {x : Definition} (h : x.isExtension = false)
    (leading : Bool) :
    ∃ s ls, x.lexemes leading = described s ++ word x.keyword.spelling :: ls := by
  cases x with
  | schema s ds os hos =>
    exact ⟨s, _, by simp only [Definition.lexemes, List.append_assoc, List.cons_append]; rfl⟩
  | type s w ds body => exact ⟨s, _, by rw [Definition.lexemes, typeLexemes]; rfl⟩
  | directive s w as os hos =>
    exact ⟨s, _, by simp only [Definition.lexemes, List.append_assoc, List.cons_append]; rfl⟩
  | schemaExtension => cases h
  | typeExtension => cases h

theorem exists_lexemes_eq_of_isExtension {x : Definition} (h : x.isExtension = true)
    (leading : Bool) : x.keyword ≠ .directive ∧
      ∃ ls, x.lexemes leading = word extendWord :: word x.keyword.spelling :: ls := by
  cases x with
  | schemaExtension ds os hne =>
    exact ⟨Keyword.noConfusion, _, by rw [Definition.lexemes]; rfl⟩
  | typeExtension w ds body hne =>
    exact ⟨Keyword.noConfusion, _, by rw [Definition.lexemes, typeLexemes]; rfl⟩
  | _ => cases h

/-- The rule is the one for the word that a lexeme is. -/
theorem ReadsDefinition.of_keyword? {l : Lexeme} {k : Keyword} {e : Bool} {rule : Parse Node}
    (h : ReadsDefinition d k e rule) (hk : keyword? l = some k) :
    Reads d rule (Shows Written.node) (fun ls x rest => ls = x.lexemes ++ rest)
      fun ls x rest => l = word x.2.keyword.spelling ∧ x.2.isExtension = e ∧
        ls = x.lexemes ++ rest ∧ AvoidsAll definitionParts rest := by
  refine h.conseq (fun _ _ _ h => h) ?_
  intro ls x rest _ hread
  obtain ⟨rfl, hx⟩ := hread
  rw [keyword?_word] at hk
  exact ⟨Option.some.inj hk, hx⟩

/-- The rule for definitions that a word opens. -/
theorem reads_keyword {t : Token} {l : Lexeme} (h : Says t l) :
    Reads d
      (match Keyword.ofToken? t with
      | some .schema => schemaDefinition
      | some (.type k) => typeDefinition k
      | some .directive => directiveDefinition
      | none => unexpected t : Parse Node)
      (Shows Written.node) (fun ls x rest => ls = x.lexemes ++ rest)
      fun ls x rest => l = word x.2.keyword.spelling ∧ x.2.isExtension = false ∧
        ls = x.lexemes ++ rest ∧ AvoidsAll definitionParts rest := by
  rw [h.ofToken?]
  cases hk : keyword? l with
  | none =>
    refine reads_unexpected.conseq (fun _ _ _ => False.elim) ?_
    intro ls x rest _ hread
    obtain ⟨rfl, -⟩ := hread
    simp [keyword?_word] at hk
  | some k =>
    cases k with
    | schema => exact reads_schemaDefinition.of_keyword? hk
    | type k => exact (reads_typeDefinition k).of_keyword? hk
    | directive => exact reads_directiveDefinition.of_keyword? hk

/-- The rule for extensions of what a word says. -/
theorem reads_keyword_extension {t : Token} {l : Lexeme} (h : Says t l) :
    Reads d
      (match Keyword.ofToken? t with
      | some .schema => schemaExtension
      | some (.type k) => typeExtension k
      | _ => unexpected t : Parse Node)
      (Shows Written.node) (fun ls x rest => ls = x.lexemes ++ rest)
      fun ls x rest => l = word x.2.keyword.spelling ∧ x.2.isExtension = true ∧
        ls = x.lexemes ++ rest ∧ AvoidsAll definitionParts rest := by
  rw [h.ofToken?]
  cases hk : keyword? l with
  | none =>
    refine reads_unexpected.conseq (fun _ _ _ => False.elim) ?_
    intro ls x rest _ hread
    obtain ⟨rfl, -⟩ := hread
    simp [keyword?_word] at hk
  | some k =>
    cases k with
    | schema => exact reads_schemaExtension.of_keyword? hk
    | type k => exact (reads_typeExtension k).of_keyword? hk
    | directive =>
      refine reads_unexpected.conseq (fun _ _ _ => False.elim) ?_
      intro ls x rest _ hread
      obtain ⟨rfl, hx, -⟩ := hread
      rw [keyword?_word] at hk
      exact (exists_lexemes_eq_of_isExtension hx x.1).1 (Option.some.inj hk)

theorem reads_typeSystemDefinition :
    Reads d typeSystemDefinition (Shows Written.node) (fun ls x rest => ls = x.lexemes ++ rest)
      fun ls x rest => x.2.isExtension = false ∧ ls = x.lexemes ++ rest ∧
        AvoidsAll definitionParts rest := by
  have hkind : ∀ {t : Token} {l : Lexeme}, Says t l → (t.kind.isString ↔ l.kind.isString) := by
    intro t l hread
    subst hread
    rw [kind_lexeme]
  refine (reads_peek.bind fun next l h => .ite (hkind h)
    (fun _ => (reads_peekAt 1).bind fun t l' ht => reads_keyword ht)
    fun _ => (reads_pure h).bind fun t l' ht => reads_keyword ht).conseq ?_ ?_
  · intro ls x rest hread
    obtain ⟨l, mid, ⟨rfl, -⟩, ⟨-, l', mid', ⟨rfl, -⟩, h⟩ | ⟨-, l', mid', ⟨-, rfl⟩, h⟩⟩ := hread
    · exact h
    · exact h
  · intro ls x rest _ hread
    obtain ⟨hx, rfl, hF⟩ := hread
    obtain ⟨s, ls, hs⟩ := exists_lexemes_eq_of_not_isExtension hx x.1
    rw [Written.lexemes, hs]
    cases s with
    | none =>
      refine ⟨_, _, ⟨rfl, rfl⟩, .inr ⟨by simp [word, Token.Kind.isString], _, _, ⟨rfl, rfl⟩, rfl,
        hx, rfl, hF⟩⟩
    | some s =>
      refine ⟨s.lexeme, _, ⟨rfl, rfl⟩, .inl ⟨Quoted.isString_kind_lexeme s, _, _, ⟨rfl, rfl⟩, rfl,
        hx, rfl, hF⟩⟩

theorem reads_typeSystemExtension :
    Reads d typeSystemExtension (Shows Written.node) (fun ls x rest => ls = x.lexemes ++ rest)
      fun ls x rest => x.2.isExtension = true ∧ ls = x.lexemes ++ rest ∧
        AvoidsAll definitionParts rest := by
  refine ((reads_peekAt 1).bind fun t l h => reads_keyword_extension h).conseq ?_ ?_
  · intro ls x rest hread
    obtain ⟨l, mid, ⟨rfl, -⟩, h⟩ := hread
    exact h
  · intro ls x rest _ hread
    obtain ⟨hx, rfl, hF⟩ := hread
    obtain ⟨-, ls, hs⟩ := exists_lexemes_eq_of_isExtension hx x.1
    rw [Written.lexemes, hs]
    exact ⟨_, _, ⟨rfl, rfl⟩, rfl, hx, rfl, hF⟩

/-- What opens a definition that is not an extension. -/
theorem opens_of_not_isExtension {x : Written} (h : x.2.isExtension = false) :
    ∃ l ls, x.lexemes = l :: ls ∧ ((keyword? l).isSome ∨ l.kind.isString) := by
  obtain ⟨s, ls, hs⟩ := exists_lexemes_eq_of_not_isExtension h x.1
  rw [Written.lexemes, hs]
  cases s with
  | none => exact ⟨_, _, rfl, .inl (by rw [keyword?_word]; rfl)⟩
  | some s => exact ⟨_, _, rfl, .inr (Quoted.isString_kind_lexeme s)⟩

/-- Definitions and extensions. -/
theorem writes_definition :
    Writes d d.budget definition (Shows Written.node) Written.lexemes
      (AvoidsAll definitionParts) := by
  have hopens : ∀ {t : Token} {l : Lexeme}, Says t l →
      ((Keyword.ofToken? t).isSome ∨ t.kind.isString ↔ (keyword? l).isSome ∨ l.kind.isString) := by
    intro t l hread
    subst hread
    rw [Says.ofToken? rfl, kind_lexeme]
  refine (reads_peek.bind fun start l h => .ite (hopens h) (fun _ => reads_typeSystemDefinition)
    fun _ => .ite (h.isWord_iff extendWord) (fun _ => reads_typeSystemExtension)
    fun _ => reads_unexpected).conseq ?_ ?_
  · intro ls x rest hread
    obtain ⟨l, mid, ⟨rfl, -⟩, ⟨-, h⟩ | ⟨-, ⟨-, h⟩ | ⟨-, ⟨⟩⟩⟩⟩ := hread
    · exact h
    · exact h
  · intro ls x rest _ hread
    obtain ⟨rfl, hF, -⟩ := hread
    cases hx : x.2.isExtension with
    | false =>
      obtain ⟨l, ls, hs, hl⟩ := opens_of_not_isExtension hx
      exact ⟨l, _, ⟨rfl, by rw [hs]; rfl⟩, .inl ⟨hl, rfl, rfl, hF⟩⟩
    | true =>
      obtain ⟨-, ls, hs⟩ := exists_lexemes_eq_of_isExtension hx x.1
      have hs : x.lexemes = word extendWord :: word x.2.keyword.spelling :: ls := hs
      exact ⟨word extendWord, _, ⟨rfl, by rw [hs]; rfl⟩, .inr ⟨by decide, .inl ⟨rfl, rfl, rfl, hF⟩⟩⟩

end Parse

end GraphSchema
