import GraphSchema.Proofs.Grammar.Node
import GraphSchema.Proofs.Parser.Sequence

/-!
# The rules for literals and directives

What the rules for literals, arguments and directives read is what their trees write.

## Main statements

* `Parse.writes_value`: literals.
* `Parse.writes_directives`: directives applied to an element.
-/

namespace GraphSchema

namespace Grammar

open Lexeme (symbol word)

/-- The first lexeme of a literal. -/
def Value.first : Value → Lexeme
  | int digits => ⟨.integer, digits⟩
  | float digits => ⟨.float, digits⟩
  | string s => s.lexeme
  | boolean b => word (if b then "true" else "false")
  | null => word "null"
  | enum name => word name
  | list _ => symbol .bracketOpen
  | object _ => symbol .curlyOpen

theorem Value.exists_lexemes_eq (v : Value) : ∃ ls, v.lexemes = v.first :: ls := by
  cases v <;> exact ⟨_, by rw [lexemes]; rfl⟩

/-- The kind of its first lexeme says of what shape a literal is, names apart. -/
theorem Value.shape_of_first (v : Value) :
    match v.first.kind with
    | .bracketOpen => ∃ vs, v = .list vs
    | .curlyOpen => ∃ es, v = .object es
    | .integer => ∃ t, v = .int t
    | .float => ∃ t, v = .float t
    | .string | .blockString => ∃ s, v = .string s
    | .name => True
    | _ => False := by
  cases v with
  | string s => cases s with | mk value block => cases block <;> exact ⟨_, rfl⟩
  | boolean b => trivial
  | null => trivial
  | enum name => trivial
  | _ => exact ⟨_, rfl⟩

/-- A literal that is read begins with the lexeme that stands in front. -/
theorem Value.first_eq_of_head? {v : Value} {l : Lexeme} {rest : List Lexeme}
    (h : (v.lexemes ++ rest).head? = some l) : v.first = l := by
  obtain ⟨ls, hv⟩ := v.exists_lexemes_eq
  simpa [hv] using h

theorem itemLexemes_eq_flatMap (vs : List Value) : itemLexemes vs = vs.flatMap Value.lexemes := by
  induction vs with
  | nil => rfl
  | cons v vs ih => rw [itemLexemes, ih, List.flatMap_cons]

theorem entryLexemes_eq_flatMap (es : List (Text × Value)) :
    entryLexemes es = es.flatMap entry := by
  induction es with
  | nil => rfl
  | cons e es ih => rw [← Prod.eta e, entryLexemes, ih]; rfl

theorem itemNodes_eq_map (vs : List Value) : itemNodes vs = vs.map Value.node := by
  induction vs with
  | nil => rfl
  | cons v vs ih => rw [itemNodes, ih, List.map_cons]

theorem fieldNodes_eq_map (es : List (Text × Value)) :
    fieldNodes es = es.map fun e => entryNode .objectField e.1 e.2.node := by
  induction es with
  | nil => rfl
  | cons e es ih => rw [← Prod.eta e, fieldNodes, ih, List.map_cons]

theorem Value.lexemes_list (vs : List Value) :
    (list vs).lexemes = symbol .bracketOpen :: (vs.flatMap lexemes ++ [symbol .bracketClose]) := by
  rw [lexemes, itemLexemes_eq_flatMap, List.cons_append]

theorem Value.lexemes_object (es : List (Text × Value)) :
    (object es).lexemes = symbol .curlyOpen :: (es.flatMap entry ++ [symbol .curlyClose]) := by
  rw [lexemes, entryLexemes_eq_flatMap, List.cons_append]

/-! ## Names as literals -/

/-- Every name is a literal. -/
theorem Value.exists_word (w : Text) : ∃ v : Value, v.first = word w ∧ v.lexemes = [word w] := by
  by_cases h : w ∈ Parse.reservedValues
  · obtain rfl | rfl | rfl : w = "true" ∨ w = "false" ∨ w = "null" := by
      simpa [Parse.reservedValues] using h
    · exact ⟨.boolean true, rfl, by rw [lexemes]; rfl⟩
    · exact ⟨.boolean false, rfl, by rw [lexemes]; rfl⟩
    · exact ⟨.null, rfl, by rw [lexemes]⟩
  · exact ⟨.enum ⟨w, h⟩, rfl, by rw [lexemes]⟩

/-- What a name stands for. -/
theorem Value.node_of_word {v : Value} {w : Text} (h : v.first = word w) :
    v.node = .mk (Parse.wordLiteral w).1 .none (Parse.wordLiteral w).2 := by
  have hw : ∀ {t u : Text}, word t = word u → t = u := fun h => congrArg Lexeme.value h
  cases v with
  | boolean b =>
    obtain rfl := hw h
    cases b
    · rw [node]; rfl
    · rw [node]; rfl
  | null =>
    obtain rfl := hw h
    rw [node]; rfl
  | enum name =>
    obtain ⟨t, ht⟩ := name
    obtain rfl : t = w := hw h
    have hne : t ≠ "true" ∧ t ≠ "false" ∧ t ≠ "null" := by simpa [Parse.reservedValues] using ht
    rw [node, Parse.wordLiteral, if_neg hne.1, if_neg hne.2.1, if_neg hne.2.2]
  | string s => cases s with | mk value block => cases block <;> cases h
  | _ => cases h

end Grammar

namespace Parse

open Grammar Lexeme

variable {d : Parser.Document} {n : Nat} {item : Parse Node}

/-- Anything is read as a string, but only strings are written as they are read. -/
theorem reads_stringLiteral :
    Reads d stringLiteral (Shows Quoted.node)
      (fun ls s rest => ∃ l, ls = l :: rest ∧ (l.kind.isString → l = s.lexeme))
      fun ls s rest => ls = s.lexeme :: rest := by
  have hnode : ∀ (t : Token) (l : Lexeme), Says t l → Reads d
      (node t .stringValue
        [.datum .value (.text t.value), .datum .block (.bool (t.kind = .blockString))])
      (Shows Quoted.node) (fun ls s rest => rest = ls ∧ (l.kind.isString → l = s.lexeme))
      fun ls s rest => rest = ls ∧ l = s.lexeme := by
    intro t l hread
    subst hread
    have h : Quoted.node ⟨t.value, t.kind = .blockString⟩ = .mk .stringValue .none
        ([.datum .value (.text t.value), .datum .block (.bool (t.kind = .blockString))].map
          Slot.plain) := rfl
    have hs : t.kind.isString → t.lexeme = Quoted.lexeme ⟨t.value, t.kind = .blockString⟩ := by
      cases hk : t.kind <;> simp [Token.lexeme, hk, Quoted.lexeme, Token.Kind.isString,
        Token.Kind.spelling?]
    refine (reads_node h).conseq ?_ ?_
    · intro ls s rest hread
      obtain ⟨rfl, rfl⟩ := hread
      exact ⟨rfl, hs⟩
    · intro ls s rest _ hread
      obtain ⟨rfl, hl⟩ := hread
      have hk : t.kind.isString := by
        rw [← kind_lexeme, hl, Quoted.lexeme]
        cases s.block <;> rfl
      refine ⟨?_, rfl⟩
      rw [hs hk] at hl
      cases s
      simp only [Quoted.lexeme, Lexeme.mk.injEq] at hl
      grind
  refine (reads_advance.bind hnode).conseq ?_ ?_
  · intro ls s rest hread
    obtain ⟨l, mid, rfl, rfl, hl⟩ := hread
    exact ⟨l, rfl, hl⟩
  · intro ls s rest _ hread
    subst hread
    exact ⟨s.lexeme, rest, rfl, rfl, rfl⟩

/-! ## Literals in literals -/

theorem avoids_value {k : Token.Kind} (hk : k = .bracketClose ∨ k = .curlyClose) (v : Value)
    (rest : List Lexeme) : Avoids (symbol k) (v.lexemes ++ rest) := by
  obtain ⟨ls, hv⟩ := v.exists_lexemes_eq
  have hne : v.first.kind ≠ k := by
    obtain rfl | rfl := hk
    all_goals
      cases v with
      | string s =>
        cases s with
        | mk value block => cases block <;> simp [Value.first, Quoted.lexeme]
      | _ => simp [Value.first, word, symbol]
  rw [hv, List.cons_append, avoids_cons]
  intro h
  exact hne (congrArg Lexeme.kind h)

theorem writes_listOf (h : Writes d n item (Shows Value.node) Value.lexemes Free) :
    Writes d (n + 1) (listOf item) (Shows fun vs => (Value.list vs).node)
      (fun vs => (Value.list vs).lexemes) Free := by
  have hi := h.any (o := .bracketOpen) (c := .bracketClose) rfl rfl (avoids_value (.inl rfl))
    (fun _ _ => trivial) fun _ => trivial
  refine (reads_peek.bind fun t _ _ => hi.bind fun ns vs hvs =>
    reads_node (b := vs) ?_).conseq ?_ ?_
  · rw [Value.node, itemNodes_eq_map, ← Forall₂.map_plain hvs]
    simp
  · intro ls vs rest hread
    obtain ⟨-, -, ⟨rfl, -⟩, -, mid, rfl, rfl, rfl⟩ := hread
    simp only [Value.lexemes_list]
  · intro ls vs rest _ hread
    obtain ⟨rfl, h⟩ := hread
    simp only [Value.lexemes_list] at h ⊢
    exact ⟨_, _, ⟨rfl, rfl⟩, vs, rest, ⟨rfl, h⟩, rfl, rfl⟩

theorem writes_entryOf (kind : Kind) (h : Writes d n item (Shows Value.node) Value.lexemes Free) :
    Writes d n (entryOf kind item) (Shows fun e => entryNode kind e.1 e.2.node) entry Free := by
  refine (reads_peek.bind fun t _ _ => reads_name.bind fun s s' hs =>
    (reads_symbol (k := .colon) rfl).bind fun _ _ _ => h.bind fun m v hv =>
    reads_node (b := (s', v)) ?_).conseq ?_ ?_
  · rw [← hv, hs]
    simp [entryNode, nameSlot]
  · intro ls e rest hread
    obtain ⟨-, -, ⟨rfl, -⟩, s, mid, rfl, -, mid', rfl, v, mid'', rfl, rfl, rfl⟩ := hread
    rfl
  · intro ls e rest _ hread
    obtain ⟨rfl, -, hn⟩ := hread
    refine ⟨_, _, ⟨rfl, rfl⟩, e.1, _, rfl, (), _, rfl, e.2, rest, ⟨rfl, trivial, ?_⟩, rfl, rfl⟩
    exact Nat.le_of_succ_le (Nat.le_of_succ_le hn)

theorem writes_objectOf (h : Writes d n item (Shows Value.node) Value.lexemes Free) :
    Writes d (n + 1) (objectOf item) (Shows fun es => (Value.object es).node)
      (fun es => (Value.object es).lexemes) Free := by
  have hi := (writes_entryOf .objectField h).allUntil_skip (k := .curlyClose) rfl
    (fun _ _ => by simp [entry, word, symbol]) (fun _ _ => trivial) fun _ => trivial
  refine ((reads_symbol (k := .curlyOpen) rfl).bind fun t _ _ => hi.bind fun ns es hes =>
    reads_node (b := es) ?_).conseq ?_ ?_
  · rw [Value.node, fieldNodes_eq_map, ← Forall₂.map_plain hes]
    simp
  · intro ls es rest hread
    obtain ⟨-, -, rfl, -, mid, rfl, rfl, rfl⟩ := hread
    simp only [Value.lexemes_object, List.cons_append]
  · intro ls es rest _ hread
    obtain ⟨rfl, -, hn⟩ := hread
    simp only [Value.lexemes_object, List.cons_append] at hn ⊢
    exact ⟨(), _, rfl, es, rest, ⟨rfl, trivial, Nat.le_of_succ_le_succ hn⟩, rfl, rfl⟩

/-- A literal that is a single token. -/
theorem reads_leaf {t : Token} {l : Lexeme} {v : Value} {kind : Kind} {slots : List Slot}
    (hv : v.node = .mk kind .none (slots.map Slot.plain)) (hl : v.lexemes = [l])
    (hf : ∀ {u : Value}, u.first = l → u = v) :
    Reads d (advance >>= fun _ => node t kind slots) (Shows Value.node)
      (fun ls u rest => ls.head? = some l → ls = u.lexemes ++ rest)
      fun ls u rest => ls.head? = some l ∧ ls = u.lexemes ++ rest := by
  refine (reads_advance.bind fun _ _ _ => reads_node hv).conseq ?_ ?_
  · intro ls u rest hread h
    obtain ⟨l', mid, rfl, rfl, rfl⟩ := hread
    obtain rfl : l' = l := by simpa using h
    rw [hl]
    rfl
  · intro ls u rest _ hread
    obtain ⟨h, rfl⟩ := hread
    obtain rfl := hf (Value.first_eq_of_head? h)
    rw [hl]
    exact ⟨l, rest, rfl, rfl, rfl⟩

theorem plain_wordLiteral (w : Text) :
    (wordLiteral w).2.map Slot.plain = (wordLiteral w).2 := by
  unfold wordLiteral
  split_ifs <;> simp

theorem reads_wordLiteral {t : Token} {w : Text} :
    Reads d (advance >>= fun _ => node t (wordLiteral w).1 (wordLiteral w).2) (Shows Value.node)
      (fun ls u rest => ls.head? = some (word w) → ls = u.lexemes ++ rest)
      fun ls u rest => ls.head? = some (word w) ∧ ls = u.lexemes ++ rest := by
  obtain ⟨v, hv, hl⟩ := Value.exists_word w
  have hn := Value.node_of_word hv
  refine reads_leaf ?_ hl fun {u} hu => ?_
  · rw [hn, plain_wordLiteral]
  · exact Value.node_injective ((Value.node_of_word hu).trans hn.symm)

theorem reads_quoted {l : Lexeme} (hl : l.kind.isString) :
    Reads d stringLiteral (Shows Value.node)
      (fun ls u rest => ls.head? = some l → ls = u.lexemes ++ rest)
      fun ls u rest => ls.head? = some l ∧ ls = u.lexemes ++ rest := by
  have hnode : ∀ (m : Node) (s : Quoted), Shows Quoted.node m s →
      Shows Value.node m (.string s) := by
    intro m s h
    rw [Shows, Value.node]
    exact h
  refine (reads_stringLiteral.map Value.string hnode).conseq ?_ ?_
  · intro ls _ rest hread hhead
    obtain ⟨s, rfl, l', rfl, h⟩ := hread
    obtain rfl : l' = l := by simpa using hhead
    rw [Value.lexemes, h hl]
    rfl
  · intro ls v rest _ hread
    obtain ⟨hhead, rfl⟩ := hread
    obtain rfl := Value.first_eq_of_head? hhead
    have hs := v.shape_of_first
    obtain ⟨s, rfl⟩ : ∃ s, v = .string s := by
      cases hk : v.first.kind <;> simp_all [Token.Kind.isString]
    exact ⟨s, rfl, by rw [Value.lexemes]; rfl⟩

/-- A literal of a shape that its first lexeme tells. -/
theorem reads_shaped {β : Type} {make : β → Value} {r : Parse Node} {l : Lexeme}
    (h : Writes d n r (Shows fun b => (make b).node) (fun b => (make b).lexemes) Free)
    (hshape : ∀ v : Value, v.first = l → ∃ b, v = make b) :
    Reads d r (Shows Value.node) (fun ls v rest => ls.head? = some l → ls = v.lexemes ++ rest)
      fun ls v rest => ls.head? = some l ∧ ls = v.lexemes ++ rest ∧ ls.length ≤ n := by
  refine (h.map make fun _ _ h => h).conseq ?_ ?_
  · intro ls _ rest hread _
    obtain ⟨b, rfl, hread⟩ := hread
    exact hread
  · intro ls v rest _ hread
    obtain ⟨hhead, rfl, hn⟩ := hread
    obtain ⟨b, rfl⟩ := hshape v (Value.first_eq_of_head? hhead)
    exact ⟨b, rfl, rfl, trivial, hn⟩

theorem writes_valueOf (hitem : Writes d n item (Shows Value.node) Value.lexemes Free) :
    Writes d (n + 1) (valueOf item) (Shows Value.node) Value.lexemes Free := by
  refine (reads_peek.bind (R := fun l ls v rest => ls.head? = some l → ls = v.lexemes ++ rest)
    (S := fun l ls v rest => ls.head? = some l ∧ ls = v.lexemes ++ rest ∧ ls.length ≤ n + 1)
    fun t l ht => ?_).conseq ?_ ?_
  · -- The kind of the first token says of what shape the literal is.
    have hshape : ∀ v : Value, v.first = l → v.first.kind = t.kind := by
      intro v hv
      rw [hv, ← ht, kind_lexeme]
    have hlexeme : t.kind.spelling? = none → l = ⟨t.kind, t.value⟩ := by
      intro h
      rw [← ht, Token.lexeme, h]
      rfl
    cases hk : t.kind with
    | bracketOpen =>
      exact reads_shaped (writes_listOf hitem) fun v hv => by
        simpa [hshape v hv, hk] using v.shape_of_first
    | curlyOpen =>
      exact reads_shaped (writes_objectOf hitem) fun v hv => by
        simpa [hshape v hv, hk] using v.shape_of_first
    | integer =>
      obtain rfl := hlexeme (by rw [hk]; rfl)
      rw [hk]
      refine (reads_leaf (v := .int t.value) (by rw [Value.node]; simp) (by rw [Value.lexemes])
        fun {u} hu => ?_).conseq (fun _ _ _ h => h) fun _ _ _ _ h => ⟨h.1, h.2.1⟩
      obtain ⟨s, rfl⟩ : ∃ s, u = .int s := by simpa [hu] using u.shape_of_first
      rw [show s = t.value from congrArg Lexeme.value hu]
    | float =>
      obtain rfl := hlexeme (by rw [hk]; rfl)
      rw [hk]
      refine (reads_leaf (v := .float t.value) (by rw [Value.node]; simp) (by rw [Value.lexemes])
        fun {u} hu => ?_).conseq (fun _ _ _ h => h) fun _ _ _ _ h => ⟨h.1, h.2.1⟩
      obtain ⟨s, rfl⟩ : ∃ s, u = .float s := by simpa [hu] using u.shape_of_first
      rw [show s = t.value from congrArg Lexeme.value hu]
    | name =>
      obtain rfl := hlexeme (by rw [hk]; rfl)
      rw [hk]
      exact reads_wordLiteral.conseq (fun _ _ _ h => h) fun _ _ _ _ h => ⟨h.1, h.2.1⟩
    | string =>
      obtain rfl := hlexeme (by rw [hk]; rfl)
      rw [hk]
      exact (reads_quoted rfl).conseq (fun _ _ _ h => h) fun _ _ _ _ h => ⟨h.1, h.2.1⟩
    | blockString =>
      obtain rfl := hlexeme (by rw [hk]; rfl)
      rw [hk]
      exact (reads_quoted rfl).conseq (fun _ _ _ h => h) fun _ _ _ _ h => ⟨h.1, h.2.1⟩
    | _ =>
      refine reads_unexpected.conseq (fun _ _ _ => False.elim) ?_
      intro ls v rest _ hread
      obtain ⟨hl, rfl, -⟩ := hread
      simpa [hshape v (Value.first_eq_of_head? hl), hk] using v.shape_of_first
  · intro ls v rest hread
    obtain ⟨l, mid, ⟨rfl, hl⟩, h⟩ := hread
    exact h hl
  · intro ls v rest _ hread
    obtain ⟨rfl, -, hn⟩ := hread
    obtain ⟨ls, hv⟩ := v.exists_lexemes_eq
    exact ⟨v.first, _, ⟨rfl, by rw [hv]; rfl⟩, by rw [hv]; rfl, rfl, hn⟩

theorem writes_valueWithin (n : Nat) :
    Writes d n (valueWithin n) (Shows Value.node) Value.lexemes Free := by
  induction n with
  | zero =>
    refine (reads_fail (by rintro p a q ⟨⟩)).conseq (fun _ _ _ => False.elim) ?_
    intro ls v rest _ h
    obtain ⟨rfl, -, hn⟩ := h
    obtain ⟨ls, hv⟩ := v.exists_lexemes_eq
    simp [hv] at hn
  | succ n ih => exact writes_valueOf ih

/-- Literals. -/
theorem writes_value : Writes d d.budget value (Shows Value.node) Value.lexemes Free where
  sound hp hr := (writes_valueWithin d.budget).sound hp hr
  complete hp h := (writes_valueWithin d.budget).complete hp h

/-! ## Directives -/

theorem writes_arguments :
    Writes d d.budget arguments (List.Forall₂ (Shows argumentNode))
      (enclosed .parenOpen .parenClose entry) (Avoids (symbol .parenOpen)) :=
  (writes_entryOf .argument writes_value).optionalMany rfl rfl
    (fun _ _ => by simp [entry, word, symbol]) (fun _ _ => trivial) fun _ => trivial

theorem writes_directive :
    Writes d d.budget directive (Shows Directive.node) Directive.lexemes
      (Avoids (symbol .parenOpen)) := by
  refine ((reads_symbol (k := .sign) rfl).bind fun _ _ _ => reads_name.bind fun s s' hs =>
    writes_arguments.bind fun ns es hes => reads_node (b := Directive.mk s' es) ?_).conseq ?_ ?_
  · rw [Directive.node, ← Forall₂.map_plain hes, hs]
    simp [nameSlot]
  · intro ls e rest h
    obtain ⟨-, -, rfl, s, mid, rfl, es, mid', rfl, rfl, rfl⟩ := h
    rfl
  · intro ls e rest _ h
    obtain ⟨rfl, hF, hn⟩ := h
    refine ⟨(), _, rfl, e.name, _, rfl, e.arguments, rest, ⟨rfl, hF, ?_⟩, rfl, rfl⟩
    exact Nat.le_of_succ_le (Nat.le_of_succ_le hn)

/-- Directives applied to an element. -/
theorem writes_directives :
    Writes d d.budget directives (List.Forall₂ (Shows Directive.node)) applied
      fun rest => Avoids (symbol .parenOpen) rest ∧ Avoids (symbol .sign) rest :=
  writes_directive.repeated rfl (fun _ => ⟨_, rfl⟩) fun _ => by simp [symbol]

end Parse

end GraphSchema
