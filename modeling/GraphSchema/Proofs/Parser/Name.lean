import GraphSchema.Proofs.Parser.Location
import GraphSchema.Proofs.Token.Name

/-!
# Names in trees

The names that the nodes of a tree hold stand in the text that the tree was read from. Each is as
long as it can be, and lies within the place of its node and outside of the places of the parts of
the node. It is a name of the language just if its digits are ASCII digits.

## Main definitions

* `Parser.Document.Yields`: what is read of a text as a document, a literal or a reference to a
  type.
* `Node.Spells`: a name of a node stands at some place of a text.

## Main statements

* `Node.ReadFrom.exists_spells`: the names of a node that was read from tokens.
* `Parser.Document.Yields.spells`: the names of all nodes that are read of a text.
-/

namespace GraphSchema

/-- The node is what is read of the text: a document, a literal, or a reference to a type. -/
inductive Parser.Document.Yields (d : Parser.Document) (n : Node) : Prop
  | document (h : d.parse = .ok n)
  | value (h : d.parseValue = .ok n)
  | type (h : d.parseType = .ok n)

/-- The name `t` of the node stands in the text at the offset `i`, in front of `rest`, and is as
long as it can be. It lies within the place of the node, if the node has one, and does not overlap
with the places of its parts. -/
structure Node.Spells (source : Text) (n : Node) (t : Text) (i : Nat) (rest : Text) : Prop where
  drop : source.drop i = t ++ rest
  word : Scan.IsWord t rest
  within : ∀ s ∈ n.info.span, s.start ≤ i ∧ (i + t.length : Nat) ≤ s.stop
  apart : ∀ c ∈ n.parts, ∀ s ∈ c.info.span, s.stop ≤ i ∨ (i + t.length : Nat) ≤ s.start

namespace Node

open Parser.Document (ofText)

variable {source : Text} {name : Option Text} {located : Bool} {us vs ts : List Token}
  {n c : Node} {x : Constituent}

/-- The place of a node that was read from tokens, if it has one. -/
theorem ReadFrom.span (h : n.ReadFrom (ofText source name located) us)
    (hus : Token.Ordered source 0 us) {s : Span} (hs : s ∈ n.info.span) :
    (∀ t ∈ us, s.start ≤ t.start ∧ t.stop ≤ s.stop) ∧
      ∃ first ∈ us, ∃ last ∈ us, s = ⟨first.start, last.stop⟩ := by
  obtain ⟨first, last, hfirst, hlast, hinfo, -⟩ := h.exists_ends
  obtain rfl : s = ⟨first.start, last.stop⟩ := by
    cases located with
    | true =>
      rw [hinfo] at hs
      cases hs
      rfl
    | false =>
      rw [hinfo] at hs
      cases hs
  refine ⟨fun t ht => ?_, first, List.mem_of_mem_head? hfirst, last, List.mem_of_getLast? hlast,
    rfl⟩
  exact ⟨Int.ofNat_le.2 (hus.first_le hfirst ht), Int.ofNat_le.2 (hus.le_last hlast ht)⟩

/-- A name that an attribute of the node holds is one of the tokens that the node was read from. No
part of the node was read from it. -/
theorem ReadFrom.exists_token (h : n.ReadFrom (ofText source name located) us) {r : Role} {t : Text}
    (hr : n.kind.holdsName r) (ht : n.content r = .text t) :
    ∃ ys u ws, us = ys ++ u :: ws ∧ u.kind = .name ∧ u.value = t ∧ ∀ c ∈ n.parts, ∃ vs,
      (vs <:+: ys ∨ vs <:+: ws) ∧ c.ReadFrom (ofText source name located) vs := by
  cases h with
  | node _ _ _ hconstituents =>
    obtain ⟨bs, cs, hsplit⟩ := List.append_of_mem (name_mem_constituents hr ht)
    rw [hsplit] at hconstituents
    obtain ⟨ys, zs, ws, rfl, hys, hzs, hws⟩ := hconstituents.exists_split
    cases hzs with
    | @name u hu =>
      refine ⟨ys, u, ws, rfl, hu, rfl, fun c hc => ?_⟩
      have hmem := node_mem_constituents (mem_held_of_mem_parts hc)
      rw [hsplit, List.mem_append, List.mem_cons] at hmem
      rcases hmem with hc | hc | hc
      · obtain ⟨vs, hvs, hread⟩ := hys.exists_infix hc
        exact ⟨vs, .inl hvs, hread⟩
      · cases hc
      · obtain ⟨vs, hvs, hread⟩ := hws.exists_infix hc
        exact ⟨vs, .inr hvs, hread⟩

/-- The place of a name that an attribute of the node holds. -/
theorem ReadFrom.exists_spells (h : n.ReadFrom (ofText source name located) us)
    (hus : Token.Ordered source 0 us) (hwords : ∀ t ∈ us, t.kind = .name → t.IsWordOf source)
    {r : Role} {t : Text} (hr : n.kind.holdsName r) (ht : n.content r = .text t) :
    ∃ i rest, n.Spells source t i rest := by
  have hspan := fun s => h.span hus (s := s)
  obtain ⟨ys, u, ws, rfl, hu, rfl, hparts⟩ := h.exists_token hr ht
  have hmem : u ∈ ys ++ u :: ws := List.mem_append_right _ List.mem_cons_self
  obtain ⟨rest, hdrop, hword, hstop⟩ := hwords u hmem hu
  obtain ⟨-, hws, hcross⟩ := List.pairwise_append.1 hus.pairwise
  refine ⟨u.start, rest, hdrop, hword, fun s hs => ?_, fun c hc s hs => ?_⟩
  · rw [← hstop]
    exact (hspan s hs).1 u hmem
  · rw [← hstop]
    obtain ⟨vs, hvs | hvs, hread⟩ := hparts c hc
    · have hordered := hus.of_infix (hvs.trans (List.prefix_append ys (u :: ws)).isInfix)
      obtain ⟨-, -, -, last, hlast, rfl⟩ := hread.span hordered hs
      exact .inl (Int.ofNat_le.2 (hcross last (hvs.subset hlast) u List.mem_cons_self))
    · have hinfix : ws <:+: ys ++ u :: ws := ⟨ys ++ [u], [], by simp⟩
      obtain ⟨-, first, hfirst, -, -, rfl⟩ := hread.span (hus.of_infix (hvs.trans hinfix)) hs
      exact .inr (Int.ofNat_le.2 (List.rel_of_pairwise_cons hws (hvs.subset hfirst)))

end Node

namespace Parse

variable {d : Parser.Document} {rule : Parse Node}

/-- A text that a single rule reads has a token in front of what the rule takes and one behind
it. -/
theorem ensures_lone (h : Makes d rule) :
    Ensures d (fun us _ => us = []) (lone rule) fun n us _ => ∃ first inner last,
      us = first :: (inner ++ [last]) ∧ last.kind = .finish ∧ n.ReadFrom d inner := by
  refine (ensures_expect _).bind fun first => h.after.bind fun n => (ensures_expect _).bind
    fun last => ensures_pure fun us ts hlast => ?_
  obtain ⟨hkind, vs, rfl, ws, inner, rfl, ⟨-, firsts, rfl, rfl⟩, hn⟩ := hlast
  exact ⟨first, inner, last, by simp, hkind, hn⟩

end Parse

namespace Parser.Document

variable {source : Text} {name : Option Text} {located : Bool} {n m : Node}

/-- A literal or a reference to a type is read from tokens of its text. -/
theorem exists_delivers_of_lone {rule : Parse Node}
    (hrule : Parse.Makes (ofText source name located) rule)
    (h : (Parse.lone rule).run (ofText source name located) = .ok n) :
    ∃ first inner last, (Lexer.ofText source).Delivers (first :: (inner ++ [last])) ∧
      n.ReadFrom (ofText source name located) inner := by
  obtain ⟨ts, e, hts⟩ := (Lexer.ofText source).exists_gives
  obtain ⟨q, hq⟩ := Parse.runOn_fst_eq_ok.1 h
  obtain ⟨vs, rest, rfl, -, first, inner, last, rfl, hlast, hread⟩ :=
    Parse.ensures_lone hrule rfl ⟨⟨ts, e, hts, rfl⟩, rfl⟩ hq
  have hsplit : first :: (inner ++ [last]) ++ rest = (first :: inner) ++ last :: rest := by simp
  obtain ⟨rfl, rfl⟩ := (hsplit ▸ hts).eq_nil_of_finish hlast
  exact ⟨first, inner, last, by rwa [List.append_nil] at hts, hread⟩

/-- A literal, a reference to a type, and all nodes below it are read from tokens of the text. -/
theorem exists_readFrom_of_lone {rule : Parse Node}
    (hrule : Parse.Makes (ofText source name located) rule)
    (h : (Parse.lone rule).run (ofText source name located) = .ok n) :
    ∃ all, (Lexer.ofText source).Delivers all ∧ ∀ m, m = n ∨ n.Below m →
      ∃ us, us <:+: all ∧ m.ReadFrom (ofText source name located) us := by
  obtain ⟨first, inner, last, hdelivers, hread⟩ := exists_delivers_of_lone hrule h
  have hinner : inner <:+: first :: (inner ++ [last]) := ⟨[first], [last], rfl⟩
  refine ⟨_, hdelivers, ?_⟩
  rintro m (rfl | hm)
  · exact ⟨inner, hinner, hread⟩
  · obtain ⟨-, -, -, -, -, hheld⟩ := hread.exists_ends
    obtain ⟨us, hus, hread⟩ := hm.readFrom hheld
    exact ⟨us, hus.trans hinner, hread⟩

/-- A document does not hold a name itself. -/
theorem not_holdsName_of_parse (h : (ofText source name located).parse = .ok n) {r : Role}
    (hr : n.kind.holdsName r) (t : Text) : n.content r ≠ .text t := by
  obtain ⟨hwell, hk⟩ := wellTyped_of_parse h
  have hnot : r ∉ n.slots.map Slot.role := by
    rw [hwell.shaped.roles, hk]
    intro hmem
    obtain rfl := List.mem_singleton.1 hmem
    cases hr
  rw [Node.content_eq_null_of_not_mem hnot]
  nofun

namespace Yields

/-- Nodes with names are read from tokens of the text. -/
theorem exists_readFrom (h : (ofText source name located).Yields n) :
    ∃ all, (Lexer.ofText source).Delivers all ∧ ∀ m, m = n ∨ n.Below m →
      ∀ {r t}, m.kind.holdsName r → m.content r = .text t →
        ∃ us, us <:+: all ∧ m.ReadFrom (ofText source name located) us := by
  cases h with
  | document h =>
    obtain ⟨first, inner, last, hdelivers, -, hheld⟩ := exists_delivers_of_parse h
    refine ⟨_, hdelivers, ?_⟩
    rintro m (rfl | hm) r t hr ht
    · exact absurd ht (not_holdsName_of_parse h hr t)
    · obtain ⟨us, hus, hread⟩ := hm.readFrom hheld
      exact ⟨us, hus.trans ⟨[first], [last], rfl⟩, hread⟩
  | value h =>
    obtain ⟨all, hall, hread⟩ := exists_readFrom_of_lone Parse.makes_value h
    exact ⟨all, hall, fun m hm _ _ _ _ => hread m hm⟩
  | type h =>
    obtain ⟨all, hall, hread⟩ := exists_readFrom_of_lone Parse.makes_typeReference h
    exact ⟨all, hall, fun m hm _ _ _ _ => hread m hm⟩

/-- Each name of a node that is read of a text stands in the text: it starts with a letter or an
underscore, goes on with letters, underscores and digits, and nothing that could go on with it
follows. It is a name of the language just if none of its digits is one of another script. -/
theorem spells (h : (ofText source name located).Yields n) (hm : m = n ∨ n.Below m) {r : Role}
    {t : Text} (hr : m.kind.holdsName r) (ht : m.content r = .text t) :
    (∃ i rest, m.Spells source t i rest) ∧
      (t.IsName ↔ ∀ c ∈ t, c.isDigit → c.isAsciiDigit) := by
  obtain ⟨all, hall, hread⟩ := h.exists_readFrom
  obtain ⟨us, hus, hread⟩ := hread m hm hr ht
  have hwords := hall.isWordOf .start
  obtain ⟨i, rest, hspells⟩ := hread.exists_spells (hall.ordered.of_infix hus)
    (fun u hu => hwords u (hus.subset hu)) hr ht
  exact ⟨⟨i, rest, hspells⟩, hspells.word.isName_iff⟩

/-- The name of a scalar with a superscript digit in it is not a name of the language. -/
theorem spells_superscript : ∃ n m, (ofText "scalar A²" none true).parse = .ok n ∧ n.Below m ∧
    m.content .name = .text "A²" ∧ (∃ i rest, m.Spells "scalar A²" "A²" i rest) ∧
      ¬Text.IsName "A²" := by
  have hread : ((ofText "scalar A²" none true).parse.toOption.bind fun n =>
      n.children.head?.bind fun m => (m.content .name).text?) = some "A²" := by decide +kernel
  obtain ⟨n, hn, hread⟩ := Option.bind_eq_some_iff.1 hread
  obtain ⟨m, hm, hname⟩ := Option.bind_eq_some_iff.1 hread
  have hparse : (ofText "scalar A²" none true).parse = .ok n := by
    revert hn
    cases (ofText "scalar A²" none true).parse with
    | ok _ => exact congrArg Except.ok ∘ Option.some.inj
    | error _ => nofun
  have hbelow : n.Below m :=
    .part (List.mem_append_right _ (List.mem_of_mem_head? (Option.mem_def.2 hm)))
  have hcontent : m.content .name = .text "A²" := Data.text?_eq_some.1 hname
  have hspells := spells (.document hparse) (.inr hbelow) rfl hcontent
  refine ⟨n, m, hparse, hbelow, hcontent, hspells.1, fun h => ?_⟩
  exact absurd (hspells.2.1 h) (by decide)

end Yields

end Parser.Document

end GraphSchema
