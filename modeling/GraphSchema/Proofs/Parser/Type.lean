import GraphSchema.Proofs.Parser.Value

/-!
# The rules for references to types

What the rule for references to types reads is what their trees write.

## Main statements

* `Parse.writes_typeReference`: references to types.
-/

namespace GraphSchema.Parse

open Grammar Lexeme

variable {d : Parser.Document} {n : Nat} {item : Parse Node}

theorem reads_namedType :
    ReadsExactly d namedType (Shows namedTypeNode) fun ls s rest => ls = word s :: rest := by
  refine (reads_peek.bind fun t _ _ => reads_name.bind fun s s' hs =>
    reads_node (b := s') ?_).congr fun ls s rest => ?_
  · simp [hs, namedTypeNode, nameSlot]
  · constructor
    · intro h
      obtain ⟨-, -, ⟨rfl, -⟩, s, mid, rfl, rfl, rfl⟩ := h
      rfl
    · intro h
      subst h
      exact ⟨_, _, ⟨rfl, rfl⟩, s, rest, rfl, rfl, rfl⟩

/-- A reference to a type without its mark: a name, or what stands in brackets. -/
abbrev Unmarked := Text ⊕ TypeReference

namespace Unmarked

/-- The node of a reference without its mark. -/
def node : Unmarked → Node
  | .inl name => namedTypeNode name
  | .inr item => .mk .listType .none [.child .type item.node]

/-- The lexemes of a reference without its mark. -/
def lexemes : Unmarked → List Lexeme
  | .inl name => [word name]
  | .inr item => symbol .bracketOpen :: (item.lexemes ++ [symbol .bracketClose])

/-- A reference with its mark, if it has one. -/
def marked (required : Bool) : Unmarked → TypeReference
  | .inl name => .named name required
  | .inr item => .list item required

theorem node_marked (r : Bool) (x : Unmarked) : (x.marked r).node = wrapped r x.node := by
  cases x <;> rfl

theorem lexemes_marked (r : Bool) (x : Unmarked) :
    (x.marked r).lexemes = x.lexemes ++ mark r := by
  cases x <;> simp [marked, lexemes, TypeReference.lexemes]

theorem exists_marked_eq (t : TypeReference) : ∃ r, ∃ x : Unmarked, x.marked r = t := by
  cases t with
  | named name r => exact ⟨r, .inl name, rfl⟩
  | list item r => exact ⟨r, .inr item, rfl⟩

end Unmarked

/-- The mark that may follow. -/
theorem reads_mark (start : Token) {m : Node} {x : Unmarked} (hx : Shows Unmarked.node m x) :
    ReadsExactly d
      (skip .exclamationMark >>= fun r =>
        if r then node start .nonNullType [.child .type m] else pure m : Parse Node)
      (Shows TypeReference.node) fun ls t rest =>
        ∃ r, t = x.marked r ∧ ls = mark r ++ rest ∧
          (r = false → Avoids (symbol .exclamationMark) rest) := by
  have hnode : ∀ r r' : Bool, r = r' → ReadsExactly d
      (if r then node start .nonNullType [.child .type m] else pure m : Parse Node)
      (Shows TypeReference.node) fun ls t rest => t = x.marked r' ∧ rest = ls := by
    intro r _ hread
    subst hread
    have h : (x.marked r).node = wrapped r m.plain := by rw [Unmarked.node_marked, hx]
    cases r
    · exact reads_pure h.symm
    · exact reads_node (by rw [h]; simp [wrapped])
  refine ((reads_skip (k := .exclamationMark) rfl).bind hnode).congr fun ls t rest => ?_
  constructor
  · intro hread
    obtain ⟨r, mid, hr, rfl, rfl⟩ := hread
    cases r
    · exact ⟨false, rfl, hr.1.symm, fun _ => hr.1 ▸ hr.2⟩
    · exact ⟨true, rfl, hr, by simp⟩
  · intro hread
    obtain ⟨r, rfl, rfl, ha⟩ := hread
    cases r
    · exact ⟨false, rest, ⟨rfl, ha rfl⟩, rfl, rfl⟩
    · exact ⟨true, rest, rfl, rfl, rfl⟩

theorem writes_typeOf (h : Writes d n item (Shows TypeReference.node) TypeReference.lexemes
      (Avoids (symbol .exclamationMark))) :
    Writes d (n + 1) (typeOf item) (Shows TypeReference.node) TypeReference.lexemes
      (Avoids (symbol .exclamationMark)) := by
  have hwrap : ∀ (start : Token) (m : Node) (t : TypeReference), Shows TypeReference.node m t →
      ReadsExactly d (node start .listType [.child .type m]) (Shows Unmarked.node) fun ls x rest =>
        x = .inr t ∧ rest = ls := by
    intro start m t ht
    refine reads_node ?_
    rw [Unmarked.node, ← ht]
    simp
  have hlist (start : Token) := h.bind fun m t ht => (reads_symbol (k := .bracketClose) rfl).bind
    fun _ _ _ => (hwrap start m t ht).bind fun _ _ hx => reads_mark start hx
  have hname : ReadsExactly d namedType (Shows Unmarked.node) fun ls x rest =>
      ∃ s, .inl s = x ∧ ls = word s :: rest := reads_namedType.map Sum.inl fun _ _ h => h
  refine (reads_peek.bind fun start _ _ => (reads_skip (k := .bracketOpen) rfl).bind
    fun b b' hb => Reads.ite (Bool.coe_iff_coe.2 hb) (fun _ => hlist start)
      fun _ => hname.bind fun _ _ hx => reads_mark start hx).conseq ?_ ?_
  · intro ls t rest hread
    obtain ⟨-, ls, ⟨rfl, -⟩, b, mid, hb, ⟨rfl, t, mid', rfl, -, mid'', rfl, x, mid₃, ⟨rfl, rfl⟩,
      r, rfl, rfl, -⟩ | ⟨hne, x, mid', ⟨s, rfl, rfl⟩, r, rfl, rfl, -⟩⟩ := hread
    · rw [Unmarked.lexemes_marked]
      simpa [Unmarked.lexemes] using hb
    · rw [if_neg hne] at hb
      rw [Unmarked.lexemes_marked]
      exact hb.1.symm
  · intro ls t rest _ hread
    obtain ⟨rfl, ha, hn⟩ := hread
    obtain ⟨r, x, rfl⟩ := Unmarked.exists_marked_eq t
    rw [Unmarked.lexemes_marked, List.append_assoc] at hn ⊢
    cases x with
    | inl s =>
      exact ⟨_, _, ⟨rfl, rfl⟩, false, _, ⟨rfl, by simp [Unmarked.lexemes, word, symbol]⟩,
        .inr ⟨by simp, .inl s, _, ⟨s, rfl, rfl⟩, r, rfl, rfl, fun _ => ha⟩⟩
    | inr t =>
      simp only [Unmarked.lexemes, List.cons_append, List.append_assoc] at hn ⊢
      exact ⟨_, _, ⟨rfl, rfl⟩, true, _, rfl, .inl ⟨rfl, t, _, ⟨rfl, by simp [symbol],
        Nat.le_of_succ_le_succ hn⟩, (), _, rfl, .inr t, _, ⟨rfl, rfl⟩, r, rfl, rfl, fun _ => ha⟩⟩

theorem TypeReference.lexemes_ne_nil (t : TypeReference) : t.lexemes ≠ [] := by
  cases t <;> simp [TypeReference.lexemes]

theorem writes_typeWithin (n : Nat) :
    Writes d n (typeWithin n) (Shows TypeReference.node) TypeReference.lexemes
      (Avoids (symbol .exclamationMark)) := by
  induction n with
  | zero =>
    refine (reads_fail (by rintro p a q ⟨⟩)).conseq (fun _ _ _ => False.elim) ?_
    intro ls t rest _ h
    obtain ⟨rfl, -, hn⟩ := h
    simp [TypeReference.lexemes_ne_nil] at hn
  | succ n ih => exact writes_typeOf ih

/-- References to types. -/
theorem writes_typeReference :
    Writes d d.budget typeReference (Shows TypeReference.node) TypeReference.lexemes
      (Avoids (symbol .exclamationMark)) where
  sound hp hr := (writes_typeWithin d.budget).sound hp hr
  complete hp h := (writes_typeWithin d.budget).complete hp h

end GraphSchema.Parse
