import GraphSchema.Parser.Document
import GraphSchema.Proofs.Parser.Definition
import GraphSchema.Proofs.Token.Last

/-!
# The parser and the grammar

The parser accepts the texts that are written as the grammar says, and only these. The document that
it gives is the one that the grammar has for the text, apart from the places of its nodes, and there
is no other.

## Main statements

* `Parse.reads_document`: the rule for documents.
* `Parser.Document.exists_flattens_of_parse`, `Parser.Document.parse_of_flattens`: both directions.
* `Parser.Document.parse_iff`: the texts that are accepted, and what they are read as.
-/

namespace GraphSchema

open Grammar Lexeme

namespace Grammar

/-- Definitions with a choice of delimiters write a document. -/
def Written.document (xs : List Written) : List Lexeme :=
  symbol .start :: (xs.flatMap Written.lexemes ++ [symbol .finish])

theorem forall₂_flattens_iff {ds : List Definition} {parts : List (List Lexeme)} :
    List.Forall₂ Definition.Flattens ds parts ↔
      ∃ xs : List Written, xs.map Prod.snd = ds ∧ xs.map Written.lexemes = parts := by
  constructor
  · intro h
    induction h with
    | nil => exact ⟨[], rfl, rfl⟩
    | cons h _ ih =>
      obtain ⟨leading, rfl⟩ := h
      obtain ⟨xs, rfl, rfl⟩ := ih
      exact ⟨(leading, _) :: xs, rfl, rfl⟩
  · intro hread
    obtain ⟨xs, rfl, rfl⟩ := hread
    induction xs with
    | nil => exact .nil
    | cons x xs ih => exact .cons ⟨x.1, rfl⟩ ih

theorem Document.flattens_iff {g : Document} {ls : List Lexeme} :
    g.Flattens ls ↔ ∃ xs : List Written, xs.map Prod.snd = g.definitions ∧
      ls = Written.document xs := by
  constructor
  · intro hread
    obtain ⟨parts, h, rfl⟩ := hread
    obtain ⟨xs, hxs, rfl⟩ := forall₂_flattens_iff.1 h
    exact ⟨xs, hxs, by simp [Written.document, List.flatMap]⟩
  · intro hread
    obtain ⟨xs, hxs, rfl⟩ := hread
    exact ⟨xs.map Written.lexemes, forall₂_flattens_iff.2 ⟨xs, hxs, rfl⟩,
      by simp [Written.document, List.flatMap]⟩

end Grammar

namespace Parse

variable {d : Parser.Document}

/-- A definition starts with a string or a word that opens definitions. -/
theorem exists_written_lexemes_eq (x : Written) :
    ∃ l ls, x.lexemes = l :: ls ∧ l ∉ symbol .finish :: definitionParts := by
  have hword : ∀ k : Keyword, word k.spelling ∉ symbol .finish :: definitionParts := by
    intro k
    cases k with
    | type k => cases k <;> decide
    | _ => decide
  cases hx : x.2.isExtension with
  | true =>
    obtain ⟨-, ls, hs⟩ := exists_lexemes_eq_of_isExtension hx x.1
    exact ⟨_, _, hs, by decide⟩
  | false =>
    obtain ⟨s, ls, hs⟩ := exists_lexemes_eq_of_not_isExtension hx x.1
    cases s with
    | none => exact ⟨_, _, hs, hword _⟩
    | some s =>
      refine ⟨_, _, hs, fun hmem => ?_⟩
      have hkind : ∀ l ∈ symbol .finish :: definitionParts, ¬l.kind.isString := by decide
      exact hkind _ hmem (Quoted.isString_kind_lexeme s)

/-- The node of a document of definitions. -/
def documentNode (xs : List Written) : Node :=
  .mk .document .none [.children .definitions (xs.map Written.node)]

theorem reads_document :
    ReadsExactly d document (Shows documentNode) fun ls xs rest =>
      xs ≠ [] ∧ ls = Written.document xs ++ rest := by
  have hlist := (writes_definition (d := d)).someUntil_skip (k := .finish) rfl
    (fun x rest => by
      obtain ⟨l, ls, hs, hl⟩ := exists_written_lexemes_eq x
      rw [hs, List.cons_append, avoids_cons]
      intro hread
      subst hread
      exact hl List.mem_cons_self)
    (fun x rest => by
      obtain ⟨l, ls, hs, hl⟩ := exists_written_lexemes_eq x
      rw [hs, List.cons_append, avoidsAll_cons]
      exact fun h => hl (List.mem_cons_of_mem _ h))
    fun rest => by simp [definitionParts, symbol, word]
  refine (reads_start.bind fun start _ _ => (reads_symbol (k := .start) rfl).bind fun _ _ _ =>
    hlist.bind fun ns xs hxs => reads_node (b := xs) ?_).conseq ?_ ?_
  · rw [documentNode, ← Forall₂.map_plain hxs]
    simp
  · intro ls xs rest hread
    obtain ⟨-, ls, ⟨rfl, -⟩, -, ls₁, rfl, xs, ls₂, ⟨hne, rfl⟩, rfl, rfl⟩ := hread
    exact ⟨hne, by simp [Written.document]⟩
  · intro ls xs rest hl hread
    obtain ⟨hne, rfl⟩ := hread
    simp only [Written.document, List.cons_append, List.append_assoc] at hl ⊢
    exact ⟨(), _, ⟨rfl, by simp⟩, (), _, rfl, xs, rest, ⟨hne, rfl, Nat.le_of_succ_le hl⟩, rfl, rfl⟩

end Parse

namespace Parser.Document

open Parse

theorem parse_eq_ok_iff {d : Document} {n : Node} :
    d.parse = .ok n ↔ ∃ q, document d (.ofText d.source) = .ok n q := by
  unfold parse run runOn
  cases h : document d (.ofText d.source) <;> simp

/-- A parser at the start of a text has its tokens ahead. -/
theorem ahead_ofText {source : Text} (name : Option Text) (located : Bool) {ts : List Token}
    {e : Option SyntaxError} (h : (Lexer.ofText source).Gives ts e) :
    (Parser.ofText source).Ahead (ofText source name located) (ts.map Token.lexeme) :=
  ⟨ts, ⟨ts, e, h, rfl⟩, rfl, h.length_le⟩

section Text

variable {source : Text} (name : Option Text) (located : Bool) {ts : List Token}

/-- What is read to the end of a text is the whole of it. -/
theorem eq_nil_of_gives {e : Option SyntaxError} (h : (Lexer.ofText source).Gives ts e)
    {xs : List Written} {rest : List Lexeme}
    (hts : ts.map Token.lexeme = Written.document xs ++ rest) : rest = [] ∧ e = none := by
  have hsplit : ts.map Token.lexeme =
      (symbol .start :: xs.flatMap Written.lexemes) ++ symbol .finish :: rest := by
    simp [hts, Written.document]
  obtain ⟨before, after, rfl, -, hafter⟩ := List.map_eq_append_iff.1 hsplit
  obtain ⟨t, after, rfl, ht, rfl⟩ := List.map_eq_cons_iff.1 hafter
  obtain ⟨rfl, rfl⟩ := h.eq_nil_of_finish (congrArg Lexeme.kind ht)
  exact ⟨rfl, rfl⟩

/-- A document that the parser makes is written by the tokens, all of which the lexer delivers. -/
theorem exists_flattens_of_parse {n : Node} (hn : (ofText source name located).parse = .ok n) :
    ∃ ts, (Lexer.ofText source).Delivers ts ∧
      ∃ g : Grammar.Document, g.Flattens (ts.map Token.lexeme) ∧ n.plain = g.node := by
  obtain ⟨ts, e, h⟩ := (Lexer.ofText source).exists_gives
  obtain ⟨q, hq⟩ := parse_eq_ok_iff.1 hn
  obtain ⟨xs, rest, -, hplain, hne, hts⟩ := reads_document.sound (ahead_ofText name located h) hq
  obtain ⟨rfl, rfl⟩ := eq_nil_of_gives h hts
  refine ⟨ts, h, ⟨xs.map Prod.snd, by simpa using hne⟩, ?_, ?_⟩
  · exact Grammar.Document.flattens_iff.2 ⟨xs, rfl, by simpa using hts⟩
  · rw [hplain, documentNode, Grammar.Document.node, List.map_map]
    rfl

/-- A document that the parser makes is written by the tokens. -/
theorem flattens_of_parse (h : (Lexer.ofText source).Delivers ts) {n : Node}
    (hn : (ofText source name located).parse = .ok n) :
    ∃ g : Grammar.Document, g.Flattens (ts.map Token.lexeme) ∧ n.plain = g.node := by
  obtain ⟨us, hus, hg⟩ := exists_flattens_of_parse name located hn
  obtain ⟨rfl, -⟩ := h.unique hus
  exact hg

/-- A document that the tokens write is made by the parser. -/
theorem parse_of_flattens (h : (Lexer.ofText source).Delivers ts) {g : Grammar.Document}
    (hg : g.Flattens (ts.map Token.lexeme)) :
    ∃ n, (ofText source name located).parse = .ok n ∧ n.plain = g.node := by
  obtain ⟨xs, hxs, hts⟩ := Grammar.Document.flattens_iff.1 hg
  have hne : xs ≠ [] := by
    intro hwritten
    subst hwritten
    exact g.nonempty hxs.symm
  have hread : xs ≠ [] ∧ ts.map Token.lexeme = Written.document xs ++ [] :=
    ⟨hne, by simpa using hts⟩
  obtain ⟨n, q, hq, -, hn⟩ := reads_document.complete (ahead_ofText name located h) hread
  refine ⟨n, parse_eq_ok_iff.2 ⟨q, hq⟩, ?_⟩
  rw [hn, documentNode, Grammar.Document.node, ← hxs, List.map_map]
  rfl

end Text

/-- Of a text whose tokens the lexer delivers, the parser makes a document if and only if the tokens
write one. It is this document that the parser makes, and the tokens write no other. -/
theorem parse_iff (source : Text) (name : Option Text) (located : Bool) {ts : List Token}
    (h : (Lexer.ofText source).Delivers ts) :
    ((∃ n, (ofText source name located).parse = .ok n) ↔
      ∃ g : Grammar.Document, g.Flattens (ts.map Token.lexeme)) ∧
    ∀ n, (ofText source name located).parse = .ok n →
      ∃ g : Grammar.Document, g.Flattens (ts.map Token.lexeme) ∧ n.plain = g.node ∧
        ∀ e : Grammar.Document, e.Flattens (ts.map Token.lexeme) → e = g := by
  refine ⟨⟨?_, ?_⟩, ?_⟩
  · intro hread
    obtain ⟨n, hn⟩ := hread
    obtain ⟨g, hg, -⟩ := flattens_of_parse name located h hn
    exact ⟨g, hg⟩
  · intro hread
    obtain ⟨g, hg⟩ := hread
    obtain ⟨n, hn, -⟩ := parse_of_flattens name located h hg
    exact ⟨n, hn⟩
  · intro n hn
    obtain ⟨g, hg, hplain⟩ := flattens_of_parse name located h hn
    refine ⟨g, hg, hplain, fun e he => ?_⟩
    obtain ⟨m, hm, hm'⟩ := parse_of_flattens name located h he
    rw [hn] at hm
    cases hm
    exact Grammar.Document.node_injective (hm'.symm.trans hplain)

/-- A definition with references to types and literals, each within another one. -/
def nestedText : Text := "input A \x7b x: [Int!] = [1, \x7b y: 2 \x7d] \x7d"

/-- The tokens of this text. -/
def nestedTokens : List Token :=
  let spaced (kind : Token.Kind) (start stop : Nat) (value : Text) : Token :=
    { Token.placed kind start stop value with ignored := " " }
  [.placed .start 0 0 [], .placed .name 0 5 "input", spaced .name 6 7 "A",
   spaced .curlyOpen 8 9 [], spaced .name 10 11 "x", .placed .colon 11 12 [],
   spaced .bracketOpen 13 14 [], .placed .name 14 17 "Int", .placed .exclamationMark 17 18 [],
   .placed .bracketClose 18 19 [], spaced .equals 20 21 [], spaced .bracketOpen 22 23 [],
   .placed .integer 23 24 "1", { Token.placed .curlyOpen 26 27 [] with ignored := ", " },
   spaced .name 28 29 "y", .placed .colon 29 30 [], spaced .integer 31 32 "2",
   spaced .curlyClose 33 34 [], .placed .bracketClose 34 35 [], spaced .curlyClose 36 37 [],
   .placed .finish 37 37 []]

/-- The tree of this text. -/
def nestedDocument : Grammar.Document where
  definitions := [.type none "A" [] (.inputObject [⟨none, "x", .list (.named "Int" true) false,
    some (.list [.int "1", .object [("y", .int "2")]]), []⟩])]
  nonempty := by simp

theorem delivers_nestedTokens : (Lexer.ofText nestedText).Delivers nestedTokens := by
  decide +kernel

theorem flattens_nestedTokens : nestedDocument.Flattens (nestedTokens.map Token.lexeme) :=
  ⟨[(nestedTokens.map Token.lexeme).tail.dropLast], .cons ⟨false, by decide⟩ .nil, by decide⟩

/-- This text, without a name and with places. -/
theorem parse_iff_nested :
    (∃ n, (ofText nestedText none true).parse = .ok n) ∧
    ∀ n, (ofText nestedText none true).parse = .ok n →
      ∃ g : Grammar.Document, g.Flattens (nestedTokens.map Token.lexeme) ∧ n.plain = g.node ∧
        ∀ e : Grammar.Document, e.Flattens (nestedTokens.map Token.lexeme) → e = g := by
  obtain ⟨hiff, hn⟩ := parse_iff nestedText none true delivers_nestedTokens
  exact ⟨hiff.2 ⟨nestedDocument, flattens_nestedTokens⟩, hn⟩

end Parser.Document

end GraphSchema
