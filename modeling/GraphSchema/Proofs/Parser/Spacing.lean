import GraphSchema.Proofs.Parser.Document
import GraphSchema.Proofs.Token.Layout

/-!
# Ignored text is insignificant

Other texts between the tokens of a text leave its tokens as they are, apart from their places. What
is read of a text depends on its tokens only, so that it stays the same as well.

## Main definitions

* `Respaces`: other texts between tokens that keep the tokens apart.

## Main statements

* `Parse.Reads.toOption_map_plain`: a rule that the grammar describes depends on what tokens say.
* `Respaces.insignificant`: a text with other texts between its tokens is read as before.
-/

namespace GraphSchema

/-! ## What tokens say settles what is read -/

namespace Parse

open Lexeme (symbol)
open Parser.Document (ahead_ofText)

variable {α β : Type}

/-- A rule that reads a whole text reads what its trees write between the tokens for the ends. -/
theorem Writes.lone {d : Parser.Document} {rule : Parse α} {V : α → β → Prop}
    {W : β → List Lexeme} {F : List Lexeme → Prop} (h : Writes d d.budget rule V W F)
    (hF : ∀ rest, F (symbol .finish :: rest)) :
    ReadsExactly d (lone rule) V fun ls b rest =>
      ls = symbol .start :: (W b ++ symbol .finish :: rest) := by
  refine ((reads_symbol (k := .start) rfl).bind fun _ _ _ => h.bind fun _ _ hv =>
    (reads_symbol (k := .finish) rfl).bind fun _ _ _ => reads_pure hv).conseq ?_ ?_
  · intro ls b rest hread
    obtain ⟨-, -, rfl, b, -, rfl, -, -, rfl, rfl, rfl⟩ := hread
    rfl
  · intro ls b rest hl hread
    subst hread
    exact ⟨(), _, rfl, b, _, ⟨rfl, hF rest, Nat.le_of_succ_le hl⟩, (), rest, rfl, rfl, rfl⟩

section Run

variable {r : Parse Node} {f : β → Node} {P : Reading β} {source source' : Text}
  {ts us : List Token} {e e' : Option SyntaxError}

theorem run_eq_ok_iff {d : Parser.Document} {n : Node} :
    r.run d = .ok n ↔ ∃ q, r d (.ofText d.source) = .ok n q := by
  unfold run runOn
  cases h : r d (.ofText d.source) <;> simp

/-- Where the tokens of two texts say the same, what is read of one is read of the other. -/
theorem Reads.exists_run (hr : ∀ d, ReadsExactly d r (Shows f) P)
    (h : (Lexer.ofText source).Gives ts e) (hu : (Lexer.ofText source').Gives us e')
    (hl : us.map Token.lexeme = ts.map Token.lexeme) (name' : Option Text) (located' : Bool)
    {name : Option Text} {located : Bool} {n : Node}
    (hn : r.run (.ofText source name located) = .ok n) :
    ∃ m, r.run (.ofText source' name' located') = .ok m ∧ m.plain = n.plain := by
  obtain ⟨q, hq⟩ := run_eq_ok_iff.1 hn
  obtain ⟨b, rest, -, hb, hread⟩ := (hr _).sound (ahead_ofText name located h) hq
  rw [← hl] at hread
  obtain ⟨m, q', hq', -, hm⟩ := (hr _).complete (ahead_ofText name' located' hu) hread
  exact ⟨m, run_eq_ok_iff.2 ⟨q', hq'⟩, hm.trans hb.symm⟩

/-- Where the tokens of two texts say the same, the same is read of both, apart from places. -/
theorem Reads.toOption_map_plain (hr : ∀ d, ReadsExactly d r (Shows f) P)
    (h : (Lexer.ofText source).Gives ts e) (hu : (Lexer.ofText source').Gives us e')
    (hl : us.map Token.lexeme = ts.map Token.lexeme) (name name' : Option Text)
    (located located' : Bool) :
    (r.run (.ofText source' name' located')).toOption.map Node.plain =
      (r.run (.ofText source name located)).toOption.map Node.plain := by
  cases hn : r.run (.ofText source name located) with
  | ok n =>
    obtain ⟨m, hm, hplain⟩ := Reads.exists_run hr h hu hl name' located' hn
    rw [hm]
    exact congrArg some hplain
  | error f =>
    cases hm : r.run (.ofText source' name' located') with
    | error f' => rfl
    | ok m =>
      obtain ⟨n, hn', -⟩ := Reads.exists_run hr hu h hl.symm name located hm
      rw [hn] at hn'
      cases hn'

end Run

end Parse

/-! ## Other texts between tokens -/

/-- A text between tokens in front of each token behind the one for the start, perhaps an empty one,
but not where it would join two tokens that are apart. -/
structure Respaces (ts : List Token) (xs : List (Token × Text)) : Prop where
  tokens : xs.map Prod.fst = ts.tail
  blank : ∀ x ∈ xs, Blank (x.1.kind = .finish) x.2
  apart : ∀ x ∈ xs.tail, x.1.kind ≠ .finish → x.1.ignored ≠ [] → x.2 ≠ []

/-- The tokens of a text with other texts in front of them. -/
def respaced (source : Text) (xs : List (Token × Text)) : Text :=
  xs.flatMap fun x => x.2 ++ x.1.textIn source

/-- A token that is read is not the one for the end of a text. -/
theorem Scan.Spells.kind_ne_finish {s value u : Text} {kind : Token.Kind}
    (h : Spells s kind value u) : kind ≠ .finish := by
  obtain ⟨c, s, rfl⟩ := List.exists_cons_of_ne_nil h.ne_nil
  exact inner_token _ _ _ _ (h.read c rfl 0)

/-- The text of a token is the spelling of its piece. -/
theorem Piece.textIn_token {before rest : Text} (p : Piece) :
    (p.token before.length).textIn (before ++ (p.gap ++ (p.text ++ rest))) = p.text := by
  have hstart : (before ++ (p.gap ++ (p.text ++ rest))).drop (before.length + p.gap.length) =
      p.text ++ rest := by
    rw [← List.append_assoc, ← List.length_append, List.drop_left]
  simp [Token.textIn, Piece.token, Token.placed, hstart]

/-- The token keeps a text in front of it if it has one. -/
def Keeps (x : Token × Text) : Prop := x.1.kind ≠ .finish → x.1.ignored ≠ [] → x.2 ≠ []

/-- Other texts between the tokens of a layout, piece by piece. -/
theorem Laid.exists_respaced {before g source : Text} {ps : List Piece}
    {xs : List (Token × Text)} (h : Laid ps g) (hs : source = before ++ Piece.joined ps g)
    (hxs : xs.map Prod.fst = Piece.tokens before.length ps g)
    (hblank : ∀ x ∈ xs, Blank (x.1.kind = .finish) x.2) :
    ∃ qs g', List.Forall₂ Respaced ps qs ∧ Blank True g' ∧
      respaced source xs = Piece.joined qs g' ∧
      ((∀ x ∈ xs, Keeps x) → List.Forall₂ Apart ps qs) ∧
      ((∀ x ∈ xs.tail, Keeps x) → List.Forall₂ Apart ps.tail qs.tail) := by
  induction h generalizing before xs with
  | last =>
    obtain ⟨⟨t, g'⟩, xs, rfl, rfl, htail⟩ := List.map_eq_cons_iff.1 hxs
    obtain rfl := List.map_eq_nil_iff.1 htail
    refine ⟨[], g', .nil, (hblank _ List.mem_cons_self).congr (by simp [Token.placed]), ?_,
      fun _ => .nil, fun _ => .nil⟩
    simp [respaced, Piece.joined, Token.textIn, Token.placed]
  | @cons p ps g gap spelled rest ih =>
    obtain ⟨⟨t, k⟩, xs, rfl, rfl, htail⟩ := List.map_eq_cons_iff.1 hxs
    have hfinish : p.kind ≠ .finish := spelled.kind_ne_finish
    obtain ⟨hk, hblank⟩ := List.forall_mem_cons.1 hblank
    obtain ⟨qs, g', hrs, hg, hjoined, hall, -⟩ := ih
      (show source = (before ++ p.gap ++ p.text) ++ Piece.joined ps g by
        simpa [Piece.joined] using hs)
      (by simpa [Nat.add_assoc] using htail) hblank
    have htext : (p.token before.length).textIn source = p.text := by
      rw [hs, Piece.joined]
      exact p.textIn_token
    refine ⟨{ p with gap := k } :: qs, g', .cons ⟨rfl, rfl, rfl, ?_⟩ hrs, hg, ?_, ?_, hall⟩
    · exact hk.congr (iff_of_false hfinish id)
    · rw [Piece.joined, ← hjoined, respaced, List.flatMap_cons, htext, List.append_assoc]
      rfl
    · intro hkeeps
      obtain ⟨hfirst, hkeeps⟩ := List.forall_mem_cons.1 hkeeps
      exact .cons (hfirst hfinish) (hall hkeeps)

namespace Respaces

open Parse
open Parser.Document (ofText nestedText nestedTokens nestedDocument delivers_nestedTokens
  flattens_nestedTokens parse_of_flattens)

variable {source : Text} {ts : List Token} {xs : List (Token × Text)}

/-- With other texts between them the tokens are the same, apart from their places. -/
theorem exists_delivers (h : (Lexer.ofText source).Delivers ts) (hx : Respaces ts xs) :
    ∃ us, (Lexer.ofText (respaced source xs)).Delivers us ∧
      us.map (fun t => (t.kind, t.value)) = ts.map fun t => (t.kind, t.value) := by
  cases h with
  | done h => cases h
  | token h rest =>
    cases h
    obtain ⟨ps, g, hlaid, rfl, rfl⟩ := rest.exists_laid
    obtain ⟨qs, g', hrs, hg, hjoined, -, hapart⟩ :=
      hlaid.exists_respaced (List.nil_append _).symm hx.tokens hx.blank
    have hqs := hlaid.regap hrs (hapart hx.apart) hg
    refine ⟨_, .token rfl (hjoined ▸ hqs.gives 0), ?_⟩
    have hkinds : ∀ {ps qs : List Piece}, List.Forall₂ Laid.Respaced ps qs →
        qs.map (fun p => (p.kind, p.kind.spelling?.getD p.value)) =
          ps.map fun p => (p.kind, p.kind.spelling?.getD p.value) := by
      intro ps qs hrs
      induction hrs with
      | nil => rfl
      | cons hr _ ih => rw [List.map_cons, List.map_cons, ih, hr.kind, hr.value]
    rw [List.map_cons, List.map_cons, Piece.map_tokens Prod.mk, Piece.map_tokens Prod.mk,
      hkinds hrs]

/-- Ignored text is insignificant: with other texts between them the tokens say the same, and the
same is read of the text, as a document, as a literal and as a reference to a type, apart from the
places, the comments and the ignored text of the nodes. -/
theorem insignificant (h : (Lexer.ofText source).Delivers ts) (hx : Respaces ts xs)
    (name name' : Option Text) (located located' : Bool) :
    (∃ us, (Lexer.ofText (respaced source xs)).Delivers us ∧
      us.map (fun t => (t.kind, t.value)) = ts.map fun t => (t.kind, t.value)) ∧
    (ofText (respaced source xs) name' located').parse.toOption.map Node.plain =
      (ofText source name located).parse.toOption.map Node.plain ∧
    (ofText (respaced source xs) name' located').parseValue.toOption.map Node.plain =
      (ofText source name located).parseValue.toOption.map Node.plain ∧
    (ofText (respaced source xs) name' located').parseType.toOption.map Node.plain =
      (ofText source name located).parseType.toOption.map Node.plain := by
  obtain ⟨us, hu, hsame⟩ := hx.exists_delivers h
  have hl : us.map Token.lexeme = ts.map Token.lexeme := by
    have := congrArg (List.map fun x : Token.Kind × Text => Lexeme.mk x.1 (x.1.spelling?.getD x.2))
      hsame
    rwa [List.map_map, List.map_map] at this
  refine ⟨⟨us, hu, hsame⟩, ?_, ?_, ?_⟩
  · exact Reads.toOption_map_plain (fun _ => reads_document) h hu hl _ _ _ _
  · exact Reads.toOption_map_plain (fun _ => writes_value.lone fun _ => trivial) h hu hl _ _ _ _
  · exact Reads.toOption_map_plain (fun _ => writes_typeReference.lone fun _ => by
      rw [avoids_cons]
      decide) h hu hl _ _ _ _

/-- Comments, commas and blanks between the tokens of a text with types and literals within one
another. -/
def commented : List (Token × Text) :=
  nestedTokens.tail.zip ["#a\n", ",", " ", "#b\n", "", ",", "", " ", "", ",", " ", "", ",,", "\n",
    "", " ", " ", "", "#c\n", " #d"]

theorem respaces_commented : Respaces nestedTokens commented where
  tokens := by decide
  blank := by decide +kernel
  apart := by decide

/-- A text with types and literals within one another, and the same text with comments. -/
theorem insignificant_commented :
    respaced nestedText commented =
      "#a\ninput,A \x7b#b\nx:,[Int !],= [1,,\x7b\ny: 2 \x7d]#c\n\x7d #d" ∧
    (∃ us, (Lexer.ofText (respaced nestedText commented)).Delivers us ∧
      us.map (fun t => (t.kind, t.value)) = nestedTokens.map fun t => (t.kind, t.value)) ∧
    (ofText (respaced nestedText commented) none true).parse.toOption.map Node.plain =
      (ofText nestedText none true).parse.toOption.map Node.plain ∧
    (ofText nestedText none true).parse.toOption.map Node.plain = some nestedDocument.node := by
  obtain ⟨hus, hparse, -, -⟩ :=
    insignificant delivers_nestedTokens respaces_commented none none true true
  obtain ⟨n, hn, hplain⟩ := parse_of_flattens none true delivers_nestedTokens flattens_nestedTokens
  refine ⟨by decide, hus, hparse, ?_⟩
  rw [hn]
  exact congrArg some hplain

end Respaces

end GraphSchema
