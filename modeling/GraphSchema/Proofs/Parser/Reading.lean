import GraphSchema.Proofs.Grammar.Basic
import GraphSchema.Proofs.Node.Plain
import GraphSchema.Proofs.Parser.Cursor

/-!
# What rules read

A rule is described by two relations between the lexemes ahead of it, a result, and the lexemes that
it leaves: one holds whenever the rule succeeds, and whenever the other one holds the rule succeeds.
Descriptions of rules in sequence compose, so that a rule is described from the rules it is made of.

## Main definitions

* `Parser.Ahead`: the lexemes ahead of a parser.
* `Parse.Reads`: the description of a rule.

## Main statements

* `Parse.Reads.bind`: rules in sequence.
* `Parse.reads_peek`, `Parse.reads_expect`, `Parse.reads_skip` and the like: single tokens.
* `Parse.reads_itemsUntil`: lists.
-/

namespace GraphSchema

/-- The lexemes ahead of a parser; there are no more of them than the document has room for. -/
def Parser.Ahead (d : Parser.Document) (p : Parser) (ls : List Lexeme) : Prop :=
  ∃ ts, p.Holds ts ∧ ts.map Token.lexeme = ls ∧ ts.length ≤ d.budget

theorem Parser.Ahead.length_le {d : Parser.Document} {p : Parser} {ls : List Lexeme}
    (h : p.Ahead d ls) : ls.length ≤ d.budget := by
  obtain ⟨ts, -, rfl, hl⟩ := h
  simpa using hl

/-- A relation between the lexemes ahead, a result, and the lexemes that are left. -/
abbrev Reading (β : Type) := List Lexeme → β → List Lexeme → Prop

namespace Parse

variable {α β γ δ : Type} {d : Parser.Document}

/-- The rule `r` reads what `P` says whenever it succeeds, and it succeeds wherever `Q` holds.
Results of the rule are compared with those of the relations by `V`. -/
structure Reads (d : Parser.Document) (r : Parse α) (V : α → β → Prop) (P Q : Reading β) :
    Prop where
  sound : ∀ {p q ls a}, p.Ahead d ls → r d p = .ok a q →
    ∃ b rest, q.Ahead d rest ∧ V a b ∧ P ls b rest
  complete : ∀ {p ls b rest}, p.Ahead d ls → Q ls b rest →
    ∃ a q, r d p = .ok a q ∧ q.Ahead d rest ∧ V a b

/-- A result that nobody asks for. -/
def Any (_ : α) (_ : Unit) : Prop := True

/-- A rule that reads just what a relation says. -/
abbrev ReadsExactly (d : Parser.Document) (r : Parse α) (V : α → β → Prop) (P : Reading β) : Prop :=
  Reads d r V P P

namespace Reads

variable {r : Parse α} {V : α → β → Prop} {W : γ → δ → Prop} {P P' Q Q' : Reading β}

/-- Weaker on what was read, stronger on what is ahead. -/
theorem conseq (h : Reads d r V P Q) (hP : ∀ ls b rest, P ls b rest → P' ls b rest)
    (hQ : ∀ ls b rest, ls.length ≤ d.budget → Q' ls b rest → Q ls b rest) :
    Reads d r V P' Q' where
  sound hp hr := by
    obtain ⟨b, rest, hq, hv, hb⟩ := h.sound hp hr
    exact ⟨b, rest, hq, hv, hP _ _ _ hb⟩
  complete hp hb := h.complete hp (hQ _ _ _ hp.length_le hb)

theorem congr (h : ReadsExactly d r V P) (hP : ∀ ls b rest, P ls b rest ↔ P' ls b rest) :
    ReadsExactly d r V P' :=
  h.conseq (fun ls b rest => (hP ls b rest).1) fun ls b rest _ => (hP ls b rest).2

/-- The results under another name. -/
theorem map {ε : Type} {V' : α → ε → Prop} (h : Reads d r V P Q) (f : β → ε)
    (hV : ∀ a b, V a b → V' a (f b)) :
    Reads d r V' (fun ls e rest => ∃ b, f b = e ∧ P ls b rest)
      (fun ls e rest => ∃ b, f b = e ∧ Q ls b rest) where
  sound hp hr := by
    obtain ⟨b, rest, hq, hv, hb⟩ := h.sound hp hr
    exact ⟨f b, rest, hq, hV _ _ hv, b, rfl, hb⟩
  complete hp := by
    intro hread
    obtain ⟨b, rfl, hb⟩ := hread
    obtain ⟨a, q, hr, hq, hv⟩ := h.complete hp hb
    exact ⟨a, q, hr, hq, hV _ _ hv⟩

/-- The result is not asked for. -/
theorem any (h : Reads d r V P Q) :
    Reads d r Any (fun ls _ rest => ∃ b, P ls b rest) (fun ls _ rest => ∃ b, Q ls b rest) :=
  (h.map (fun _ => ()) fun _ _ _ => trivial).conseq (by rintro ls ⟨⟩ rest ⟨b, -, h⟩; exact ⟨b, h⟩)
    (by rintro ls ⟨⟩ rest - ⟨b, h⟩; exact ⟨b, rfl, h⟩)

/-- What is known of a result, as a part of it. -/
theorem subtype {p : β → Prop} (h : Reads d r V (fun ls b rest => p b ∧ P ls b rest)
    fun ls b rest => p b ∧ Q ls b rest) :
    Reads d r (fun a (b : { b // p b }) => V a b) (fun ls b rest => P ls b rest)
      fun ls b rest => Q ls b rest where
  sound hp hr := by
    obtain ⟨b, rest, hq, hv, hb, h⟩ := h.sound hp hr
    exact ⟨⟨b, hb⟩, rest, hq, hv, h⟩
  complete {_ _ b _} hp hb := h.complete hp ⟨b.2, hb⟩

/-- One rule after the other. -/
theorem bind {k : α → Parse γ} {R S : β → Reading δ} (h : Reads d r V P Q)
    (hk : ∀ a b, V a b → Reads d (k a) W (R b) (S b)) :
    Reads d (r >>= k) W (fun ls c rest => ∃ b mid, P ls b mid ∧ R b mid c rest)
      (fun ls c rest => ∃ b mid, Q ls b mid ∧ S b mid c rest) where
  sound hp hr := by
    obtain ⟨a, q, hr, hk'⟩ := bind_eq_ok.1 hr
    obtain ⟨b, mid, hq, hv, hb⟩ := h.sound hp hr
    obtain ⟨c, rest, hq', hw, hc⟩ := (hk a b hv).sound hq hk'
    exact ⟨c, rest, hq', hw, b, mid, hb, hc⟩
  complete hp := by
    intro hread
    obtain ⟨b, mid, hb, hc⟩ := hread
    obtain ⟨a, q, hr, hq, hv⟩ := h.complete hp hb
    obtain ⟨c, q', hk', hq', hw⟩ := (hk a b hv).complete hq hc
    exact ⟨c, q', (bind_ok hr).trans hk', hq', hw⟩

/-- A choice by a condition, which is given in terms of what the relations know. -/
theorem ite {c c' : Prop} [Decidable c] {s : Parse α} (hc : c ↔ c') (ht : c' → Reads d r V P Q)
    (hf : ¬c' → Reads d s V P' Q') :
    Reads d (if c then r else s) V (fun ls b rest => c' ∧ P ls b rest ∨ ¬c' ∧ P' ls b rest)
      (fun ls b rest => c' ∧ Q ls b rest ∨ ¬c' ∧ Q' ls b rest) := by
  by_cases h : c'
  · simpa [hc, h] using ht h
  · simpa [hc, h] using hf h

end Reads

/-- A result that stands for any `b` of some kind. -/
theorem reads_pure_of {V : α → β → Prop} {a : α} {p : β → Prop} (hp : ∃ b, p b)
    (h : ∀ b, p b → V a b) : ReadsExactly d (pure a) V (fun ls b rest => p b ∧ rest = ls) where
  sound := by
    intro q q' ls c hq hread
    cases hread
    obtain ⟨b, hb⟩ := hp
    exact ⟨b, ls, hq, h b hb, hb, rfl⟩
  complete := by
    intro q ls b rest hq hread
    obtain ⟨hb, rfl⟩ := hread
    exact ⟨a, q, rfl, hq, h b hb⟩

theorem reads_pure {V : α → β → Prop} {a : α} {b : β} (h : V a b) :
    ReadsExactly d (pure a) V (fun ls c rest => c = b ∧ rest = ls) :=
  reads_pure_of ⟨b, rfl⟩ (by rintro c rfl; exact h)

/-- A rule that fails reads nothing. -/
theorem reads_fail {r : Parse α} {V : α → β → Prop} (h : ∀ p a q, r d p ≠ .ok a q) :
    ReadsExactly d r V (fun _ _ _ => False) where
  sound _ hr := (h _ _ _ hr).elim
  complete _ := False.elim

theorem reads_failAt {t : Token} {cause : SyntaxError.Cause} {V : α → β → Prop} :
    ReadsExactly d (failAt t cause) V (fun _ _ _ => False) :=
  reads_fail (by rintro p a q ⟨⟩)

theorem reads_unexpected {t : Token} {V : α → β → Prop} :
    ReadsExactly d (unexpected t) V (fun _ _ _ => False) :=
  reads_failAt

/-! ## Single tokens -/

/-- The token says what the lexeme says. -/
def Says (t : Token) (l : Lexeme) : Prop := t.lexeme = l

theorem reads_peekAt (k : Nat) :
    ReadsExactly d (peekAt (k + 1 : Nat)) Says fun ls l rest => rest = ls ∧ ls[k]? = some l where
  sound := by
    intro p q _ t h hr
    obtain ⟨ts, hp, rfl, hl⟩ := h
    have hk := lt_length_of_peekAt hp hr
    obtain ⟨q', hq, hh, -⟩ := peekAt_eq (d := d) hp (List.getElem?_eq_getElem hk)
    rw [hq] at hr
    cases hr
    exact ⟨_, _, ⟨ts, hh, rfl, hl⟩, rfl, rfl, by simp [hk]⟩
  complete := by
    intro p _ l _ h hread
    obtain ⟨ts, hp, rfl, hl⟩ := h
    obtain ⟨rfl, hk⟩ := hread
    obtain ⟨t, ht, rfl⟩ : ∃ t, ts[k]? = some t ∧ t.lexeme = l := by simpa using hk
    obtain ⟨q, hq, hh, -⟩ := peekAt_eq (d := d) hp ht
    exact ⟨t, q, hq, ⟨ts, hh, rfl, hl⟩, rfl⟩

theorem reads_peek :
    ReadsExactly d peek Says fun ls l rest => rest = ls ∧ ls.head? = some l :=
  (reads_peekAt 0).conseq (by simp [List.head?_eq_getElem?]) (by simp [List.head?_eq_getElem?])

/-- The place at which a rule starts. -/
theorem reads_start : ReadsExactly d peek Any fun ls _ rest => rest = ls ∧ ls ≠ [] := by
  refine reads_peek.any.congr fun ls _ rest => ?_
  constructor
  · intro h
    obtain ⟨l, rfl, hl⟩ := h
    refine ⟨rfl, ?_⟩
    intro h
    subst h
    simp at hl
  · intro h
    obtain ⟨rfl, hne⟩ := h
    exact ⟨rest.head hne, rfl, List.head?_eq_some_head hne⟩

theorem reads_advance :
    ReadsExactly d advance Says fun ls l rest => ls = l :: rest where
  sound := by
    intro p q _ t hread hr
    obtain ⟨ts, hp, rfl, hl⟩ := hread
    cases ts with
    | nil => exact absurd rfl (ne_nil_of_advance hp hr)
    | cons u ts =>
      obtain ⟨q', hq, hh, -⟩ := advance_eq (d := d) hp
      rw [hq] at hr
      cases hr
      exact ⟨_, _, ⟨ts, hh, rfl, by simp at hl; omega⟩, rfl, rfl⟩
  complete := by
    intro p _ l rest hread h
    obtain ⟨ts, hp, rfl, hl⟩ := hread
    obtain ⟨t, ts, rfl, rfl, rfl⟩ := List.map_eq_cons_iff.1 h
    obtain ⟨q, hq, hh, -⟩ := advance_eq (d := d) hp
    exact ⟨t, q, hq, ⟨ts, hh, rfl, by simp at hl; omega⟩, rfl⟩

/-- A kind that settles what its tokens say. -/
def IsSymbol (k : Token.Kind) : Prop := k.spelling?.isSome

theorem kind_lexeme (t : Token) : t.lexeme.kind = t.kind := rfl

theorem value_lexeme {t : Token} (h : t.kind.spelling? = none) : t.lexeme.value = t.value := by
  simp [Token.lexeme, h]

/-- A lexeme that tokens have. -/
theorem Says.eq_symbol {t : Token} {l : Lexeme} {k : Token.Kind} (h : Says t l) (hk : IsSymbol k) :
    l.kind = k ↔ l = .symbol k := by
  subst h
  constructor
  · intro hread
    subst hread
    obtain ⟨s, hs⟩ := Option.isSome_iff_exists.1 hk
    rw [kind_lexeme] at hs
    simp [Token.lexeme, Lexeme.symbol, hs]
  · intro h
    rw [h]
    rfl

theorem isWord_iff {t : Token} {w : Text} : t.isWord w ↔ t.lexeme = .word w := by
  simp only [Token.isWord, Bool.and_eq_true, decide_eq_true_eq, Lexeme.word]
  constructor
  · intro hread
    obtain ⟨hk, hv⟩ := hread
    simp [Token.lexeme, hk, hv, Token.Kind.spelling?]
  · intro h
    have hk : t.kind = .name := congrArg Lexeme.kind h
    have hv := congrArg Lexeme.value h
    rw [value_lexeme (by rw [hk]; rfl)] at hv
    exact ⟨hk, hv⟩

theorem Says.kind_iff {t : Token} {l : Lexeme} (h : Says t l) (k : Token.Kind) :
    t.kind = k ↔ l.kind = k := by
  rw [← h, kind_lexeme]

theorem Says.isWord_iff {t : Token} {l : Lexeme} (h : Says t l) (w : Text) :
    t.isWord w ↔ l = .word w := by
  rw [← h]
  exact Parse.isWord_iff

theorem reads_expect (k : Token.Kind) :
    ReadsExactly d (expect k) Says fun ls l rest => ls = l :: rest ∧ l.kind = k := by
  refine (reads_peek.bind fun t l h =>
    .ite (h.kind_iff k) (fun _ => reads_advance) fun _ => reads_failAt).congr fun ls l rest => ?_
  constructor
  · intro hread
    obtain ⟨l', mid, ⟨rfl, hl⟩, ⟨hk, rfl⟩ | ⟨-, ⟨⟩⟩⟩ := hread
    cases hl
    exact ⟨rfl, hk⟩
  · intro hread
    obtain ⟨rfl, hk⟩ := hread
    exact ⟨l, _, ⟨rfl, rfl⟩, .inl ⟨hk, rfl⟩⟩

theorem reads_symbol {k : Token.Kind} (hk : IsSymbol k) :
    ReadsExactly d (expect k) Any fun ls _ rest => ls = .symbol k :: rest := by
  refine (reads_peek.bind fun t l h => .ite ((h.kind_iff k).trans (h.eq_symbol hk))
    (fun _ => reads_advance.any) fun _ => reads_failAt).congr fun ls _ rest => ?_
  constructor
  · intro hread
    obtain ⟨l, mid, ⟨rfl, hl⟩, ⟨rfl, l', rfl⟩ | ⟨-, ⟨⟩⟩⟩ := hread
    cases hl
    rfl
  · intro hread
    subst hread
    exact ⟨_, _, ⟨rfl, rfl⟩, .inl ⟨rfl, _, rfl⟩⟩

theorem reads_expectWord (w : Text) :
    ReadsExactly d (expectWord w) Any fun ls _ rest => ls = .word w :: rest := by
  refine (reads_peek.bind fun t l h => .ite (h.isWord_iff w) (fun _ => reads_advance.any)
    fun _ => reads_failAt).congr fun ls _ rest => ?_
  constructor
  · intro hread
    obtain ⟨l, mid, ⟨rfl, hl⟩, ⟨rfl, l', rfl⟩ | ⟨-, ⟨⟩⟩⟩ := hread
    cases hl
    rfl
  · intro hread
    subst hread
    exact ⟨_, _, ⟨rfl, rfl⟩, .inl ⟨rfl, _, rfl⟩⟩

/-- There is a next lexeme, and it is not `l`. -/
def Avoids (l : Lexeme) (ls : List Lexeme) : Prop := ∃ m, ls.head? = some m ∧ m ≠ l

@[simp] theorem avoids_cons {l m : Lexeme} {ls : List Lexeme} : Avoids l (m :: ls) ↔ m ≠ l := by
  simp [Avoids]

theorem Says.eq_symbol_iff {t : Token} {l : Lexeme} {k : Token.Kind} (h : Says t l)
    (hk : IsSymbol k) : t.kind = k ↔ l = .symbol k := (h.kind_iff k).trans (h.eq_symbol hk)

theorem Says.decide_eq {t : Token} {l : Lexeme} {k : Token.Kind} (h : Says t l)
    (hk : IsSymbol k) : decide (t.kind = k) = decide (l = .symbol k) :=
  decide_eq_decide.2 (h.eq_symbol_iff hk)

theorem reads_ahead {k : Token.Kind} (hk : IsSymbol k) :
    ReadsExactly d (ahead k) Eq fun ls b rest =>
      rest = ls ∧ if b then ls.head? = some (.symbol k) else Avoids (.symbol k) ls := by
  refine (reads_peek.bind fun t l h =>
    reads_pure (h.decide_eq hk)).congr fun ls b rest => ?_
  grind [Avoids]

theorem reads_skip {k : Token.Kind} (hk : IsSymbol k) :
    ReadsExactly d (skip k) Eq fun ls b rest =>
      if b then ls = .symbol k :: rest else rest = ls ∧ Avoids (.symbol k) ls := by
  refine (reads_peek.bind fun t l h => .ite (h.eq_symbol_iff hk)
    (fun _ => reads_advance.bind fun _ _ _ => reads_pure rfl) fun _ => reads_pure rfl).congr
    fun ls b rest => ?_
  constructor
  · intro hread
    obtain ⟨l, mid, ⟨rfl, hl⟩, ⟨rfl, l', ls, rfl, rfl, rfl⟩ | ⟨hne, rfl, rfl⟩⟩ := hread
    · simp_all
    · exact ⟨rfl, l, hl, hne⟩
  · cases b with
    | true =>
      intro hread
      subst hread
      exact ⟨_, _, ⟨rfl, rfl⟩, .inl ⟨rfl, _, _, rfl, rfl, rfl⟩⟩
    | false =>
      intro hread
      obtain ⟨rfl, l, hl, hne⟩ := hread
      exact ⟨l, rest, ⟨rfl, hl⟩, .inr ⟨hne, rfl, rfl⟩⟩

/-- The token is a name. -/
def Names (t : Token) (w : Text) : Prop := t.lexeme = .word w

theorem Names.kind_eq {t : Token} {w : Text} (h : Names t w) : t.kind = .name :=
  congrArg Lexeme.kind h

theorem Names.value_eq {t : Token} {w : Text} (h : Names t w) : t.value = w := by
  have hk : t.kind.spelling? = none := by rw [h.kind_eq]; rfl
  rw [← value_lexeme hk, h]
  rfl

theorem reads_word : ReadsExactly d (expect .name) Names fun ls w rest => ls = .word w :: rest where
  sound hp hr := by
    obtain ⟨⟨k, w⟩, rest, hq, hv, rfl, rfl⟩ := (reads_expect .name).sound hp hr
    exact ⟨w, rest, hq, hv, rfl⟩
  complete hp h := (reads_expect .name).complete hp ⟨h, rfl⟩

theorem reads_name : ReadsExactly d name Eq fun ls w rest => ls = .word w :: rest := by
  refine (reads_word.bind fun t w h => reads_pure h.value_eq).congr fun ls w rest => ?_
  constructor
  · intro hread
    obtain ⟨w, mid, rfl, rfl, rfl⟩ := hread
    rfl
  · intro hread
    subst hread
    exact ⟨w, rest, rfl, rfl, rfl⟩

/-! ## Nodes -/

/-- The node is the one that stands for the tree, apart from its place. -/
def Shows (f : β → Node) (n : Node) (b : β) : Prop := n.plain = f b

theorem reads_node_of {start : Token} {kind : Kind} {slots : List Slot} {f : β → Node}
    {p : β → Prop}
    (hp : ∃ b, p b) (h : ∀ b, p b → f b = .mk kind .none (slots.map Slot.plain)) :
    ReadsExactly d (node start kind slots) (Shows f) fun ls b rest => p b ∧ rest = ls where
  sound := by
    intro q q' ls n hq hread
    cases hread
    obtain ⟨b, hb⟩ := hp
    exact ⟨b, ls, hq, by simp [Shows, h b hb, Metadata.plain, Metadata.none], hb, rfl⟩
  complete := by
    intro q ls b rest hq hread
    obtain ⟨hb, rfl⟩ := hread
    exact ⟨_, q, rfl, hq, by simp [Shows, h b hb, Metadata.plain, Metadata.none]⟩

theorem reads_node {t : Token} {kind : Kind} {slots : List Slot} {f : β → Node} {b : β}
    (h : f b = .mk kind .none (slots.map Slot.plain)) :
    ReadsExactly d (node t kind slots) (Shows f) fun ls c rest => c = b ∧ rest = ls :=
  reads_node_of ⟨b, rfl⟩ (by rintro c rfl; exact h)

theorem Forall₂.map_plain {f : β → Node} {ns : List Node} {bs : List β}
    (h : List.Forall₂ (Shows f) ns bs) : ns.map Node.plain = bs.map f := by
  induction h with
  | nil => rfl
  | cons h _ ih => rw [List.map_cons, List.map_cons, h, ih]

/-! ## Lists -/

/-- Items, each in front of which `stop` says no, up to where it says yes. -/
def Repeats (stop : Reading Bool) (item : Reading β) : List β → List Lexeme → List Lexeme → Prop
  | [], ls, rest => stop ls true rest
  | b :: bs, ls, rest =>
    ∃ mid mid', stop ls false mid ∧ item mid b mid' ∧ Repeats stop item bs mid' rest

theorem reads_itemsUntil {stop : Parse Bool} {item : Parse α} {S : Reading Bool}
    {V : α → β → Prop} {P Q : Reading β} (hs : ReadsExactly d stop Eq S) (hi : Reads d item V P Q)
    (fuel : Nat) :
    Reads d (itemsUntil stop item fuel) (List.Forall₂ V)
      (fun ls bs rest => Repeats S P bs ls rest)
      (fun ls bs rest => bs.length < fuel ∧ Repeats S Q bs ls rest) := by
  induction fuel with
  | zero =>
    exact (reads_fail (by rintro p a q ⟨⟩)).conseq (by simp) (by simp)
  | succ fuel ih =>
    refine (hs.bind fun b b' h => .ite (Bool.coe_iff_coe.2 h)
      (fun _ => reads_pure List.Forall₂.nil) fun _ => hi.bind fun a c hv =>
        ih.bind fun as cs hvs => reads_pure (List.Forall₂.cons hv hvs)).conseq ?_ ?_
    · intro ls bs rest hread
      obtain ⟨b, mid, hb, ⟨rfl, rfl, rfl⟩ | ⟨hne, c, mid₁, hc, cs, mid₂, hcs, rfl, rfl⟩⟩ := hread
      · exact hb
      · rw [Bool.not_eq_true] at hne
        subst hne
        exact ⟨mid, mid₁, hb, hc, hcs⟩
    · intro ls bs rest _ hread
      obtain ⟨hl, hbs⟩ := hread
      cases bs with
      | nil => exact ⟨true, rest, hbs, .inl ⟨rfl, rfl, rfl⟩⟩
      | cons c cs =>
        obtain ⟨mid, mid₁, hb, hc, hcs⟩ := hbs
        exact ⟨false, mid, hb, .inr ⟨by simp, c, mid₁, hc, cs, rest,
          ⟨by simpa using hl, hcs⟩, rfl, rfl⟩⟩

end Parse

end GraphSchema
