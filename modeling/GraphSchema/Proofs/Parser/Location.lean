import GraphSchema.Proofs.Parser.Extent
import GraphSchema.Proofs.SyntaxError
import GraphSchema.Proofs.Token.Last
import GraphSchema.Proofs.Token.Order

/-!
# The places of nodes

A document that is read takes up the whole of its text, and each node below it takes up a part of
the text that is not empty. Nodes lie within the nodes above them and one behind the other. What a
node knows of its line and column, of the ignored text in front of it and of the comments in this
text is right.

## Main definitions

* `Node.Placed`: a node has its place in a text.

## Main statements

* `Node.ReadFrom.placed`: nodes that were read from tokens of a text.
* `Parser.Document.placed_of_parse`: documents and the nodes below them.
-/

namespace GraphSchema

/-! ## Places of nodes -/

/-- All of the first node stands in front of the second one. -/
def Node.Precedes (n m : Node) : Prop :=
  ∀ s ∈ n.info.span, ∀ t ∈ m.info.span, s.stop ≤ t.start

/-- The node takes up the text from the offset `i` to the offset `j`. Its parts lie within it, one
behind the other; its line and column are those of `i`, what it ignores is the text that ends at
`i`, and its comments are the ones in that text. -/
structure Node.Placed (source : Text) (name : Option Text) (i j : Nat) (n : Node) : Prop where
  span : n.info.span = some ⟨i, j⟩
  stop_le : j ≤ source.length
  location : ∃ line column, Source.locate? source i = some (line, column) ∧
    n.info.location = some ⟨line, column, name⟩
  ignored : ∃ ignored comments, n.info.ignored = .text ignored ∧
    n.info.comments = comments.map Atom.text ∧
    (source.take i).drop (i - ignored.length) = ignored ∧
    ∀ found, Gap False ignored found ↔ found = comments
  within : ∀ c ∈ n.parts, ∃ a b : Nat, c.info.span = some ⟨a, b⟩ ∧ i ≤ a ∧ b ≤ j
  ordered : n.parts.Pairwise Node.Precedes

namespace Parser.Document

variable {source : Text} {name : Option Text}

/-- The line and column of an offset of the text. -/
theorem location_eq (name : Option Text) (located : Bool) {i : Nat} (h : i ≤ source.length) :
    ∃ line column, Source.locate? source i = some (line, column) ∧
      (ofText source name located).location i = ⟨line, column, name⟩ := by
  obtain ⟨⟨line, column⟩, hlocate⟩ := Option.isSome_iff_exists.1
    (Source.isSome_locate?.2 ⟨Int.natCast_nonneg i, Int.ofNat_le.2 h⟩)
  refine ⟨line, column, hlocate, ?_⟩
  rw [Source.locate?, if_neg (by omega)] at hlocate
  rw [location]
  simp only [ofText, hlocate]

end Parser.Document

namespace Node

open Parser.Document (ofText)

variable {source : Text} {name : Option Text} {ts us : List Token} {n m : Node}
  {first last : Token}

/-- Nodes that were read from tokens one behind the other stand one behind the other. -/
theorem ReadFrom.precedes (hn : n.ReadFrom (ofText source name true) us)
    (hm : m.ReadFrom (ofText source name true) ts)
    (h : ∀ t ∈ us, ∀ u ∈ ts, t.stop ≤ u.start) : n.Precedes m := by
  obtain ⟨_, last, -, hlast, hinfo, -⟩ := hn.exists_ends
  obtain ⟨first, _, hfirst, -, hinfo', -⟩ := hm.exists_ends
  have hle := h last (List.mem_of_getLast? hlast) first (List.mem_of_mem_head? hfirst)
  intro s hs t ht
  rw [hinfo] at hs
  rw [hinfo'] at ht
  cases hs
  cases ht
  exact Int.ofNat_le.2 hle

/-- A node that starts with the first one of some tokens and ends with the last one. -/
theorem placed_of_segments (hn : n.Shaped) (hts : Token.Ordered source 0 ts)
    (hfirst : ts.head? = some first) (hlast : ts.getLast? = some last)
    (hkind : first.kind ≠ .finish) (hinfo : n.info = (ofText source name true).info first last.stop)
    (hus : us <:+: ts) (hheld : Segments (ReadFrom (ofText source name true)) us n.held) :
    n.Placed source name first.start last.stop := by
  have hstands := hts.stands first (List.mem_of_mem_head? hfirst)
  have hgap : Gap False first.ignored first.comments := hstands.gap.congr ⟨hkind, False.elim⟩
  constructor
  case span => rw [hinfo]; rfl
  case stop_le => exact (hts.stands last (List.mem_of_getLast? hlast)).stop_le
  case location =>
    obtain ⟨line, column, hlocate, hlocation⟩ :=
      Parser.Document.location_eq name true (Nat.le_trans hstands.le hstands.stop_le)
    exact ⟨line, column, hlocate, by rw [hinfo, ← hlocation]; rfl⟩
  case ignored =>
    refine ⟨first.ignored, first.comments, by rw [hinfo]; rfl, by rw [hinfo]; rfl,
      hstands.ignored, fun found => ⟨fun h => h.unique hgap rfl, ?_⟩⟩
    rintro rfl
    exact hgap
  case within =>
    intro c hc
    obtain ⟨vs, hvs, hread⟩ := hheld.exists_infix (hn.parts_sublist.subset hc)
    obtain ⟨a, b, ha, hb, hinfo, -⟩ := hread.exists_ends
    refine ⟨a.start, b.stop, by rw [hinfo]; rfl, ?_, ?_⟩
    · exact hts.first_le hfirst ((hvs.trans hus).subset (List.mem_of_mem_head? ha))
    · exact hts.le_last hlast ((hvs.trans hus).subset (List.mem_of_getLast? hb))
  case ordered =>
    have hordered := hheld.pairwise (hts.of_infix hus).pairwise ReadFrom.precedes
    exact hordered.sublist hn.parts_sublist

/-- A node that was read from tokens of a text has its place there, and takes up some of the
text. -/
theorem ReadFrom.placed (h : n.ReadFrom (ofText source name true) us) (hn : n.Shaped)
    (hus : Token.Ordered source 0 us) (hinner : ∀ t ∈ us, t.IsInner) :
    ∃ i j, i < j ∧ n.Placed source name i j := by
  obtain ⟨first, last, hfirst, hlast, hinfo, hheld⟩ := h.exists_ends
  have hmem := List.mem_of_mem_head? hfirst
  have hlt := (hus.stands first hmem).lt (hinner first hmem)
  exact ⟨first.start, last.stop, Nat.lt_of_lt_of_le hlt (hus.le_last hlast hmem),
    placed_of_segments hn hus hfirst hlast (hinner first hmem).2 hinfo (List.infix_refl us) hheld⟩

/-- What stands below a node that was read was read as well. -/
theorem Below.readFrom {d : Parser.Document} (h : n.Below m)
    (hheld : Segments (ReadFrom d) us n.held) : ∃ vs, vs <:+: us ∧ m.ReadFrom d vs := by
  induction h with
  | part hm => exact hheld.exists_infix (mem_held_of_mem_parts hm)
  | step _ hc ih =>
    obtain ⟨vs, hvs, hread⟩ := ih
    obtain ⟨_, _, -, -, -, hheld⟩ := hread.exists_ends
    obtain ⟨ws, hws, hread⟩ := hheld.exists_infix (mem_held_of_mem_parts hc)
    exact ⟨ws, hws.trans hvs, hread⟩

theorem Below.exists_readFrom {d : Parser.Document} (h : n.Below m) (hn : n.WellTyped)
    (hheld : Segments (ReadFrom d) us n.held) :
    m.WellTyped ∧ ∃ vs, vs <:+: us ∧ m.ReadFrom d vs :=
  ⟨h.wellTyped hn, h.readFrom hheld⟩

end Node

namespace Parser.Document

variable {source : Text} {name : Option Text} {n : Node}

/-- A document is read from all tokens of its text. -/
theorem exists_delivers_of_parse {located : Bool}
    (h : (ofText source name located).parse = .ok n) :
    ∃ first inner last, (Lexer.ofText source).Delivers (first :: (inner ++ [last])) ∧
      n.info = (ofText source name located).info first last.stop ∧
      Segments (Node.ReadFrom (ofText source name located)) inner n.held := by
  obtain ⟨ts, e, hts⟩ := (Lexer.ofText source).exists_gives
  obtain ⟨q, hq⟩ := parse_eq_ok_iff.1 h
  obtain ⟨vs, rest, rfl, -, first, inner, last, rfl, hlast, hinfo, hheld⟩ :=
    Parse.ensures_document rfl ⟨⟨ts, e, hts, rfl⟩, rfl⟩ hq
  have hsplit : first :: (inner ++ [last]) ++ rest = (first :: inner) ++ last :: rest := by simp
  obtain ⟨rfl, rfl⟩ := (hsplit ▸ hts).eq_nil_of_finish hlast
  exact ⟨first, inner, last, by rwa [List.append_nil] at hts, hinfo, hheld⟩

/-- A document takes up its whole text. It and all nodes below it have their places in the text, and
each node below it takes up some of the text. -/
theorem placed_of_parse (h : (ofText source name true).parse = .ok n) :
    n.Placed source name 0 source.length ∧
      ∀ m, n.Below m → ∃ i j, i < j ∧ m.Placed source name i j := by
  have hwell := (wellTyped_of_parse h).1
  obtain ⟨first, inner, last, hdelivers, hinfo, hheld⟩ := exists_delivers_of_parse h
  have hordered := hdelivers.ordered
  obtain ⟨rfl, hinner, hstop⟩ := hdelivers.inner
  have hinfix : inner <:+: .placed .start 0 0 [] :: (inner ++ [last]) :=
    ⟨[.placed .start 0 0 []], [last], rfl⟩
  constructor
  · rw [← hstop]
    refine Node.placed_of_segments hwell.shaped hordered rfl ?_ nofun hinfo hinfix hheld
    rw [← List.cons_append, List.getLast?_concat]
  · intro m hm
    obtain ⟨hwell, us, hus, hread⟩ := hm.exists_readFrom hwell hheld
    exact hread.placed hwell.shaped (hordered.of_infix (hus.trans hinfix))
      fun t ht => hinner t (hus.subset ht)

/-- A document with types and literals within one another. -/
theorem placed_of_parse_nested :
    ∃ n, (ofText nestedText none true).parse = .ok n ∧ n.Placed nestedText none 0 37 ∧
      ∀ m, n.Below m → ∃ i j, i < j ∧ m.Placed nestedText none i j := by
  obtain ⟨n, hn, -⟩ := parse_of_flattens none true delivers_nestedTokens flattens_nestedTokens
  exact ⟨n, hn, placed_of_parse hn⟩

end Parser.Document

end GraphSchema
