import GraphSchema.Proofs.Parser.Location
import GraphSchema.Proofs.Parser.Twin.Document
import GraphSchema.Proofs.Token.Cut

/-!
# Parts of documents by themselves

The text at the place of a definition, of a literal or of a reference to a type is read by itself as
this definition, literal or reference. The text has the tokens that the node was read from, and the
rule for the node takes all of them and does not ask for another one behind them.

## Main definitions

* `Metadata.placeFrom`, `Node.placedFrom`: places that are counted from some offset on.
* `Node.StandsAlone`: a node is what is read of the text at its place.

## Main statements

* `Parse.Made.exists_alone`: what a rule has read is read of its text by itself.
* `Parser.Document.standsAlone_of_parse`: definitions, literals and references to types.
-/

namespace GraphSchema

/-! ## Places from an offset on -/

/-- The place of a node, counted from the offset `i`, without where else it comes from. -/
def Metadata.placeFrom (i : Nat) (m : Metadata) : Metadata :=
  { m.plain with span := m.span.map fun s => ⟨s.start - i, s.stop - i⟩ }

/-- A node with its places and those of all nodes below it counted from the offset `i`, without
where else they come from. -/
def Node.placedFrom (i : Nat) (n : Node) : Node := n.relabel (Metadata.placeFrom i)

/-- The node is what is read of the text at its place, but for the place of this text. -/
def Node.StandsAlone (source : Text) (reads : Text → Node → Prop) (n : Node) : Prop :=
  ∃ i j : Nat, n.info.span = some ⟨i, j⟩ ∧
    ∃ m, reads ((source.drop i).take (j - i)) m ∧ m.placedFrom 0 = n.placedFrom i

namespace Twin

open Parser.Document (ofText)

/-- Two documents with tokens that match if the first one says the same `s` code points behind the
second one. The second document may be cut. -/
def cutting (d d' : Parser.Document) (s : Nat) (ts : List Token) (room : d.budget ≤ d'.budget)
    (located : d'.located = d.located) (fits : ts.length ≤ d.budget)
    (ordered : ts.Pairwise fun t u => t.start < u.start)
    (le : ∀ t ∈ ts, s ≤ t.start ∧ s ≤ t.stop) : Twin where
  first := d
  second := d'
  tokens := ts
  cut := True
  same := Token.Shifted s
  stops k k' := k = k' + s
  view := Metadata.placeFrom s
  view' := Metadata.placeFrom 0
  room := room
  fits := fits
  kind_eq h := h.kind
  value_eq h := h.value
  stop h := h.stop
  info := by
    intro t t' k k' h hk
    have hstart := h.start
    simp only [Metadata.placeFrom, Parser.Document.info, located]
    congr 1
    split
    · simp only [Option.map_some, Option.some.injEq, Span.mk.injEq]
      omega
    · rfl
  partner t ht := by
    obtain ⟨hstart, hstop⟩ := le t ht
    exact ⟨{ t with start := t.start - s, stop := t.stop - s }, rfl, rfl,
      (Nat.sub_add_cancel hstart).symm, (Nat.sub_add_cancel hstop).symm⟩
  ordered := ordered

end Twin

namespace Parse

open Lexer (opened)
open Parser.Document (ofText)

variable {α : Type} {T : Twin} {C : List Token → Prop} {m : Nat} {r r' : Parse α}
  {S : Language Lexeme} {V : α → α → Prop} {us us' rest all : List Token} {t' : Token} {a : α}
  {d : Parser.Document} {n : Node}

/-! ## Rules by themselves -/

/-- What holds of a rule holds of what it was read from. -/
theorem Made.ensured {P : TokenCondition} {Q : α → TokenCondition} (h : Made d all us rest r a)
    (hr : Ensures d P r Q) (hP : P [] (us ++ rest)) : Q a us rest := by
  obtain ⟨p, q, hp, hrun, hq⟩ := h.read
  obtain ⟨vs, ts, hts, hb, ha⟩ := hr hP ⟨Parser.holds_iff.2 ⟨none, hp⟩, rfl⟩ hrun (k := p.lastStop)
  obtain ⟨e, hrest⟩ := Parser.holds_iff.1 hb.holds
  obtain rfl := hq.unique hrest
  obtain rfl := List.append_cancel_right hts
  exact ha

/-- A rule does not take the token for the end of its text if the second document may be cut. -/
theorem TracksWhere.inner_of_made (h : TracksWhere T C 0 m r r' S V) (hcut : T.cut)
    (hC : C (us ++ rest)) (hmade : Made T.first T.tokens us rest r a) :
    ∀ t ∈ us, t.kind ≠ .finish := by
  obtain ⟨p, q, hp, hr, hq⟩ := hmade.read
  exact (h.tracked ⟨hp, hmade.suffix, nofun⟩ hC hr hq).inner hcut

/-- What a rule has read is read by itself: the rule does the same in the second document, where
nothing but its end follows the tokens. -/
theorem TracksWhere.exists_of_made (h : TracksWhere T C 0 m r r' S V) (hcut : T.cut)
    (hC : C (us ++ rest)) (hmade : Made T.first T.tokens us rest r a) (hrest : rest ≠ [])
    (hus : List.Forall₂ T.same us us') (ht' : t'.kind = .finish) {p' : Parser}
    (hp' : p'.HoldsUntil none (us' ++ [t'])) :
    ∃ a' q', r' T.second p' = .ok a' q' ∧ q'.HoldsUntil none [t'] ∧ V a a' := by
  obtain ⟨p, q, hp, hr, hq⟩ := hmade.read
  obtain ⟨t, rest, rfl⟩ := List.exists_cons_of_ne_nil hrest
  have htracked := h.tracked ⟨hp, hmade.suffix, nofun⟩ hC hr hq
  obtain ⟨a', q', vs, rest', hts', hvs, hr', hpass, ha⟩ :=
    htracked.follows ⟨hp', .of_cut hus hcut ht', nofun⟩ (Nat.lt_succ_self _)
  obtain ⟨rfl, rfl⟩ := List.append_inj hts' (hus.length_eq.symm.trans hvs.length_eq)
  exact ⟨a', q', hr', hpass.holds, ha⟩

/-- A rule `r'`, which may know the first token, reads the node `n` of its text in the document
`d'`, and the token for the end remains. -/
structure Alone (d' : Parser.Document) (r' : Token → Parse Node) (i : Nat) (n : Node) (u : Token)
    (us : List Token) (t : Token) : Prop where
  gives : (opened d'.source).Gives (u :: us ++ [t]) none
  finish : t.kind = .finish
  read : ∀ {p}, p.HoldsUntil none (u :: us ++ [t]) →
    ∃ m q, r' u d' p = .ok m q ∧ q.HoldsUntil none [t] ∧ m.placedFrom 0 = n.placedFrom i

variable {source : Text} {name name' : Option Text}

/-- A text cut out of a text, with room for one token more than this text has. -/
def cutDocument (source : Text) (name' : Option Text) (i j : Nat) : Parser.Document :=
  { ofText ((source.drop i).take (j - i)) name' true with length := source.length + 1 }

/-- Each of the tokens from some token on stands behind this one. -/
theorem start_le (hall : (opened source).Gives all none) (hsuffix : us <:+ all) {first : Token}
    (hfirst : us.head? = some first) : ∀ t ∈ us, first.start ≤ t.start ∧ first.start ≤ t.stop := by
  have hordered := Token.Ordered.of_infix (hall.ordered (Place.in_start source)) hsuffix.isInfix
  intro t ht
  have hstart := hordered.first_le hfirst ht
  exact ⟨hstart, Nat.le_trans hstart (hordered.stands t ht).le⟩

/-- What a rule has read of a text is read of the text at its place by itself. -/
theorem Made.exists_alone {r : Parse Node} (r' : Token → Parse Node)
    (hmade : Made (ofText source name true) all us rest r n)
    (hall : (opened source).Gives all none) (hread : n.ReadFrom (ofText source name true) us)
    (h : ∀ {T : Twin} {t t' : Token}, T.first = ofText source name true → us.head? = some t →
      T.same t t' → TracksWhere T (Next t) 0 1 r (r' t') S fun m m' =>
        m.relabel T.view = m'.relabel T.view') (name' : Option Text) :
    ∃ i j : Nat, n.info.span = some ⟨i, j⟩ ∧
      ∃ u vs t, (∀ first ∈ us.head?, u.kind = first.kind) ∧
        Alone (cutDocument source name' i j) r' i n u vs t := by
  obtain ⟨first, last, hfirst, hlast, hinfo, -⟩ := hread.exists_ends
  refine ⟨first.start, last.stop, by rw [hinfo]; rfl, ?_⟩
  have hnext : Next first (us ++ rest) := by
    rw [Next, List.head?_append, hfirst]
    rfl
  have hlen := hall.length_le_opened
  have hsuffix := hmade.suffix
  let T := Twin.cutting (ofText source name true) (cutDocument source name' first.start last.stop)
    first.start (us ++ rest) (Nat.le_succ _) rfl
    (Nat.le_trans hsuffix.length_le (Nat.le_succ_of_le hlen))
    (hall.pairwise_start.sublist hsuffix.sublist) (start_le hall hsuffix hnext)
  have hmade' : Made T.first T.tokens us rest r n := ⟨List.suffix_rfl, hmade.read⟩
  have hrest : rest ≠ [] := by
    -- Otherwise the rule would have taken the token for the end.
    rintro rfl
    obtain ⟨t', ht'⟩ := T.partner first (List.mem_of_mem_head? hnext)
    have hinner := (h (T := T) rfl hfirst ht').inner_of_made trivial hnext hmade'
    refine hinner last (List.mem_of_getLast? hlast) (hall.kind_getLast ?_)
    obtain ⟨before, rfl⟩ := hsuffix
    rw [List.append_nil, List.getLast?_append, hlast]
    rfl
  obtain ⟨before, rfl⟩ := hsuffix
  obtain ⟨us', t', hgives, hfinish, hus⟩ := hall.exists_cut hrest hfirst hlast
  obtain ⟨us, rfl⟩ := List.head?_eq_some_iff.1 hfirst
  cases hus with
  | @cons _ u _ us' hu hus =>
    refine ⟨u, us', t', fun _ h => Option.some.inj h ▸ hu.kind, hgives, hfinish, fun hp => ?_⟩
    have htracks := h (T := T) rfl hfirst hu
    obtain ⟨m, q, hr, hq, hm⟩ :=
      htracks.exists_of_made trivial hnext hmade' hrest (.cons hu hus) hfinish hp
    exact ⟨m, q, hr, hq, hm.symm⟩

/-! ## The end of a text -/

section End

variable {p : Parser} {kind : Token.Kind} {e : Option SyntaxError} {t u : Token}

/-- A token of another kind is left where it is. -/
theorem exists_skip_of_ne (kind : Token.Kind) (hp : p.HoldsUntil e (t :: us))
    (ht : t.kind ≠ kind) : ∃ q, (∀ d, skip kind d p = .ok false q) ∧ q.HoldsUntil e (t :: us) := by
  obtain ⟨q, hq, hold, -⟩ := peekAt_eq_until (k := 0) hp rfl
  refine ⟨q, fun d => (bind_ok (hq d)).trans ?_, hold⟩
  rw [if_neg ht]
  rfl

/-- A token of the kind is taken. -/
theorem exists_skip_of_eq (hp : p.HoldsUntil e (t :: us)) (ht : t.kind = kind) :
    ∃ q, (∀ d, skip kind d p = .ok true q) ∧ q.HoldsUntil e us := by
  obtain ⟨q, hq, hold, -⟩ := peekAt_eq_until (k := 0) hp rfl
  obtain ⟨q', hq', hold', -⟩ := advance_eq_until hold
  refine ⟨q', fun d => (bind_ok (hq d)).trans ?_, hold'⟩
  rw [if_pos ht]
  exact bind_ok (hq' d)

theorem exists_expect_of_eq (hp : p.HoldsUntil e (t :: us)) (ht : t.kind = kind) :
    ∃ q, ∀ d, expect kind d p = .ok t q := by
  obtain ⟨q, hq, hold, -⟩ := peekAt_eq_until (k := 0) hp rfl
  obtain ⟨q', hq', -, -⟩ := advance_eq_until hold
  refine ⟨q', fun d => (bind_ok (hq d)).trans ?_⟩
  rw [if_pos ht]
  exact hq' d

/-- What a rule reads up to the end of a text is read of the text. -/
theorem run_lone {rule : Parse Node} (hr : ∀ v, Settled v 0 rule) {i j : Nat} {q : Parser}
    (h : rule (cutDocument source name' i j)
      ⟨opened ((source.drop i).take (j - i)), [], 0⟩ = .ok n q)
    (hq : q.HoldsUntil none [t]) (ht : t.kind = .finish) :
    (lone rule).run (ofText ((source.drop i).take (j - i)) name' true) = .ok n := by
  obtain ⟨q', hq'⟩ := exists_expect_of_eq hq ht
  have hrun := (opens_lone hr).run_eq (d := ofText ((source.drop i).take (j - i)) name' true)
    (Nat.le_refl _) (n := source.length + 1) (by simp [ofText]; omega)
  rw [← hrun, runOn_fst_eq_ok]
  exact ⟨q', (bind_ok h).trans ((bind_ok (hq' _)).trans rfl)⟩

/-- A definition that is read up to the end of a text is the only one of the text. -/
theorem run_definition {i j : Nat} {q : Parser}
    (h : definition (cutDocument source name' i j)
      ⟨opened ((source.drop i).take (j - i)), [], 0⟩ = .ok n q)
    (hq : q.HoldsUntil none [t]) (ht : t.kind = .finish) :
    ∃ info, (ofText ((source.drop i).take (j - i)) name' true).parse =
      .ok (.mk .document info [.children .definitions [n]]) := by
  obtain ⟨q', hq', -⟩ := exists_skip_of_eq hq ht
  have hrun := opens_body.run_eq (d := ofText ((source.drop i).take (j - i)) name' true)
    (Nat.le_refl _) (n := source.length + 1) (by simp [ofText]; omega)
  have hall : allUntil (skip .finish) definition (cutDocument source name' i j) q = .ok [] q' :=
    (bind_ok (hq' _)).trans rfl
  have hsome : someUntil (skip .finish) definition (cutDocument source name' i j)
      ⟨opened ((source.drop i).take (j - i)), [], 0⟩ = .ok [n] q' :=
    (bind_ok h).trans ((bind_ok hall).trans rfl)
  refine ⟨(cutDocument source name' i j).info (.placed .start 0 0 []) q'.lastStop, ?_⟩
  rw [Parser.Document.parse, ← hrun, runOn_fst_eq_ok]
  exact ⟨q', (bind_ok hsome).trans rfl⟩

end End

/-! ## Literals and references to types -/

namespace Alone

variable {d' : Parser.Document} {i depth : Nat} {u t : Token}

/-- A quoted literal is a literal. -/
theorem of_stringLiteral (h : Alone d' (fun _ => stringLiteral) i n u us t)
    (hu : u.kind.isString) : Alone d' (fun _ => valueWithin (depth + 1)) i n u us t where
  gives := h.gives
  finish := h.finish
  read {p} hp := by
    obtain ⟨q, hq, hold, -⟩ := peekAt_eq_until (k := 0) hp rfl
    obtain ⟨m, q', hm, hq', hplace⟩ := h.read hold
    refine ⟨m, q', (bind_ok (hq d')).trans ?_, hq', hplace⟩
    cases hk : u.kind <;> rw [hk] at hu <;> first | exact hm | cases hu

/-- A name is a reference to a type in front of its mark. -/
theorem of_namedType {item : Parse Node} (h : Alone d' (fun _ => namedType) i n u us t) :
    Alone d' (unmarked item) i n u us t where
  gives := h.gives
  finish := h.finish
  read {p} hp := by
    have hu : u.kind ≠ .bracketOpen := by
      intro hu
      obtain ⟨q, hq, hold, -⟩ := peekAt_eq_until (k := 0) hp rfl
      obtain ⟨q', hq', -, -⟩ := peekAt_eq_until (k := 0) hold rfl
      have hname : expect .name d' q = .error ⟨.expectedKind .name u.value, u.start⟩ q' := by
        refine (bind_ok (hq' d')).trans ?_
        rw [if_neg (by rw [hu]; decide)]
        rfl
      have hfail : namedType d' p = .error ⟨.expectedKind .name u.value, u.start⟩ q' :=
        (bind_ok (hq d')).trans (bind_of_error (bind_of_error hname))
      obtain ⟨m, q'', hm, -⟩ := h.read hp
      exact absurd (hm.symm.trans hfail) nofun
    obtain ⟨q, hq, hold⟩ := exists_skip_of_ne .bracketOpen hp hu
    obtain ⟨m, q', hm, hrest⟩ := h.read hold
    exact ⟨m, q', (bind_ok (hq d')).trans hm, hrest⟩

/-- At the end of a text no mark follows a reference to a type. -/
theorem of_unmarked (h : Alone d' (unmarked (typeWithin depth)) i n u us t) :
    Alone d' (fun _ => typeWithin (depth + 1)) i n u us t where
  gives := h.gives
  finish := h.finish
  read {p} hp := by
    obtain ⟨q, hq, hold, -⟩ := peekAt_eq_until (k := 0) hp rfl
    obtain ⟨m, q', hm, hq', hplace⟩ := h.read hold
    obtain ⟨q'', hskip, hend⟩ := exists_skip_of_ne .exclamationMark hq' (by
      rw [h.finish]
      decide)
    refine ⟨m, q'', ?_, hend, hplace⟩
    change typeOf (typeWithin depth) d' p = _
    rw [typeOf_eq]
    exact (bind_ok (hq d')).trans ((bind_ok hm).trans ((bind_ok (hskip d')).trans rfl))

end Alone

/-- A definition that was read of a text is the only one of the text at its place. -/
theorem standsAlone_definition (hmade : Made (ofText source name true) all us rest definition n)
    (hall : (opened source).Gives all none) (name' : Option Text) :
    n.StandsAlone source fun t m => ∃ info,
      (ofText t name' true).parse = .ok (.mk .document info [.children .definitions [m]]) := by
  obtain ⟨i, j, hspan, u, vs, t, -, h⟩ := hmade.exists_alone (fun _ => definition) hall
    (hmade.ensured makes_definition rfl)
    (fun _ _ _ => tracks_definition.weaken fun _ _ h => h.relabel) name'
  obtain ⟨m, q, hm, hq, hplace⟩ := h.read (p := ⟨opened _, [], 0⟩) ⟨_, h.gives, rfl⟩
  exact ⟨i, j, hspan, m, run_definition hm hq h.finish, hplace⟩

/-- A literal that was read of a text is the one that the text at its place is. -/
theorem standsAlone_literal (hn : n.LiteralFrom (ofText source name true) all us rest)
    (hall : (opened source).Gives all none) (name' : Option Text) :
    n.StandsAlone source fun t m => (ofText t name' true).parseValue = .ok m := by
  obtain ⟨i, j, hspan, u, vs, t, h⟩ : ∃ i j : Nat, n.info.span = some ⟨i, j⟩ ∧ ∃ u vs t,
      Alone (cutDocument source name' i j) (fun _ => valueWithin (source.length + 3))
        i n u vs t := by
    cases hn with
    | @within depth le made =>
      obtain ⟨i, j, hspan, u, vs, t, -, h⟩ := made.exists_alone
        (fun _ => valueWithin (source.length + 3)) hall
        (made.ensured (makes_valueWithin depth) rfl)
        (fun hT _ _ => (tracks_valueWithin (Nat.le_succ_of_le le) (hT ▸ le)).weaken
          fun _ _ h => h.relabel) name'
      exact ⟨i, j, hspan, u, vs, t, h⟩
    | @quoted first hfirst hkind made =>
      obtain ⟨i, j, hspan, u, vs, t, hu, h⟩ := made.exists_alone
        (fun _ => stringLiteral) hall (made.ensured makes_stringLiteral rfl)
        (fun _ h _ => (tracks_stringLiteral (by
          cases hfirst.symm.trans h
          exact hkind)).weaken fun _ _ h => h.relabel) name'
      exact ⟨i, j, hspan, u, vs, t, h.of_stringLiteral (by rwa [hu _ hfirst])⟩
  obtain ⟨m, q, hm, hq, hplace⟩ := h.read (p := ⟨opened _, [], 0⟩) ⟨_, h.gives, rfl⟩
  exact ⟨i, j, hspan, m, run_lone (fun _ => settled_value.mono (Nat.zero_le _)) hm hq h.finish,
    hplace⟩

/-- What stands in front of the mark of a reference starts with the token that is ahead. -/
theorem makesAhead_unmarked {t : Token} {item : Parse Node} (hi : Makes d item) :
    MakesAhead d t (unmarked item t) := by
  refine (ensures_skip _).bind fun b => ?_
  cases b with
  | true =>
    have hlist : Builds d t true [] (item >>= fun inner => expect .bracketClose >>= fun _ =>
        node t .listType [.child .type inner]) :=
      hi.gathers.then fun _ => (gathers_expect _).then fun _ => builds_node (by simp)
    refine hlist.conseq (fun us ts h => ?_) fun _ _ _ h => h
    obtain ⟨vs, u, -, rfl, rfl, hfirst⟩ := h
    exact (Part.start hfirst).take
  | false => exact makes_namedType.conseq (fun _ _ h => h.1) fun _ _ _ h => h

/-- A reference to a type that was read of a text is the one that the text at its place is. -/
theorem standsAlone_reference (hn : n.ReferenceFrom (ofText source name true) all us rest)
    (hall : (opened source).Gives all none) (name' : Option Text) :
    n.StandsAlone source fun t m => (ofText t name' true).parseType = .ok m := by
  obtain ⟨i, j, hspan, u, vs, t, h⟩ : ∃ i j : Nat, n.info.span = some ⟨i, j⟩ ∧ ∃ u vs t,
      Alone (cutDocument source name' i j) (fun _ => typeWithin (source.length + 3))
        i n u vs t := by
    cases hn with
    | @within depth le made =>
      obtain ⟨i, j, hspan, u, vs, t, -, h⟩ := made.exists_alone
        (fun _ => typeWithin (source.length + 3)) hall
        (made.ensured (makes_typeWithin depth) rfl)
        (fun hT _ _ => (tracks_typeWithin (Nat.le_succ_of_le le) (hT ▸ le)).weaken
          fun _ _ h => h.relabel) name'
      exact ⟨i, j, hspan, u, vs, t, h⟩
    | @unmarked first depth le hfirst made =>
      have hhead : (us ++ rest).head? = some first := by rw [List.head?_append, hfirst]; rfl
      obtain ⟨i, j, hspan, u, vs, t, -, h⟩ := made.exists_alone
        (unmarked (typeWithin (source.length + 2))) hall
        (made.ensured (makesAhead_unmarked (makes_typeWithin depth)) ⟨rfl, hhead⟩)
        (fun hT h hsame => by
          cases hfirst.symm.trans h
          exact (tracks_unmarked hsame (hT ▸ le) (tracks_typeWithin le (hT ▸ le))).weaken
            fun _ _ h => h.1.relabel) name'
      exact ⟨i, j, hspan, u, vs, t, h.of_unmarked⟩
    | named made =>
      obtain ⟨i, j, hspan, u, vs, t, -, h⟩ := made.exists_alone
        (fun _ => namedType) hall (made.ensured makes_namedType rfl)
        (fun _ _ _ => tracks_namedType.weaken fun _ _ h => h.relabel) name'
      exact ⟨i, j, hspan, u, vs, t, h.of_namedType.of_unmarked⟩
  obtain ⟨m, q, hm, hq, hplace⟩ := h.read (p := ⟨opened _, [], 0⟩) ⟨_, h.gives, rfl⟩
  exact ⟨i, j, hspan, m, run_lone (fun _ => settled_typeReference.mono (Nat.zero_le _)) hm hq
    h.finish, hplace⟩

end Parse

/-! ## Documents -/

/-- What stands below a node that was read by known rules was read by known rules. -/
theorem Node.Below.traced {d : Parser.Document} {all : List Token} {n m : Node} (h : n.Below m)
    (hheld : ∀ c ∈ n.held, c.Traced d all) : m.Traced d all := by
  induction h with
  | part hm => exact hheld _ (mem_held_of_mem_parts hm)
  | step _ hc ih => exact ih.of_mem_held (mem_held_of_mem_parts hc)

theorem Node.childrenAt_document (i : Metadata) (ns : List Node) :
    (mk .document i [.children .definitions ns]).childrenAt .definitions = ns :=
  Slot.nodes_content_children .definitions ns

namespace Parser.Document

open Lexer (opened)
open Parse

variable {source : Text} {name : Option Text} {n : Node}

/-- The definitions of a document were read by the rule for definitions, and all literals and
references to types below it by known rules. -/
theorem exists_made_of_parse (h : (ofText source name true).parse = .ok n) :
    ∃ all, (opened source).Gives all none ∧
      (∀ m ∈ n.childrenAt .definitions, ∃ us rest,
        Made (ofText source name true) all us rest definition m) ∧
      ∀ c ∈ n.held, c.Traced (ofText source name true) all := by
  obtain ⟨ts, hts, -⟩ := exists_flattens_of_parse name true h
  obtain ⟨all, rfl, hall⟩ := hts.exists_opened
  have hrun := opens_body.run_eq (d := ofText source name true) (Nat.le_refl _) (Nat.le_refl _)
  obtain ⟨q, hq⟩ := runOn_fst_eq_ok.1 (hrun.trans h)
  obtain ⟨ns, q', hns, hnode⟩ := bind_eq_ok.1 hq
  cases hnode
  let T := Twin.saying (ofText source name true) (ofText source name true) all (Nat.le_refl _)
    (Nat.le_succ_of_le hall.length_le_opened) hall.pairwise_start
  obtain ⟨us, rest, -, -, -, htracked⟩ :=
    (tracks_definitions (T := T) id).ok (ready_opened hall rfl) trivial hns
  obtain ⟨ns', hdefinitions⟩ := htracked.partner
  have hmade := (List.forall₂_and_left (p := fun m => ∃ us rest,
    Made (ofText source name true) all us rest definition m) ns ns').1 (hdefinitions.imp
      fun _ _ h => ⟨h.2.imp fun _ h => h.imp fun _ h => h.2, h.1⟩)
  have hheld : ∀ c ∈ ns, c.Traced (ofText source name true) all := Twin.traced_of_mem hmade.2
  refine ⟨all, hall, fun m hm => hmade.1 m ?_, by simpa [Node.held, Node.slots] using hheld⟩
  rwa [Node.childrenAt_document] at hm

/-- The place of a node stands for the node: the text at the place of a definition is read as a
document of this definition, the text at the place of a literal as this literal, and the text at the
place of a reference to a type as this reference, with all places as far further to the front as the
text was cut. -/
theorem standsAlone_of_parse (h : (ofText source name true).parse = .ok n) (name' : Option Text) :
    (∀ m ∈ n.childrenAt .definitions, m.StandsAlone source fun t c => ∃ info,
      (ofText t name' true).parse = .ok (.mk .document info [.children .definitions [c]])) ∧
    ∀ m, n.Below m →
      (m.kind.isValue →
        m.StandsAlone source fun t c => (ofText t name' true).parseValue = .ok c) ∧
      (m.kind.isType →
        m.StandsAlone source fun t c => (ofText t name' true).parseType = .ok c) := by
  obtain ⟨all, hall, hdefinitions, hheld⟩ := exists_made_of_parse h
  refine ⟨fun m hm => ?_, fun m hm => ?_⟩
  · obtain ⟨us, rest, hmade⟩ := hdefinitions m hm
    exact standsAlone_definition hmade hall name'
  · obtain ⟨literal, reference, -⟩ := hm.traced hheld
    refine ⟨fun hk => ?_, fun hk => ?_⟩
    · obtain ⟨us, rest, hfrom⟩ := literal hk
      exact standsAlone_literal hfrom hall name'
    · obtain ⟨us, rest, hfrom⟩ := reference hk
      exact standsAlone_reference hfrom hall name'

/-- All nodes of a document with references to types and literals within one another stand alone. -/
theorem standsAlone_of_parse_nestedText :
    ∃ n, (ofText nestedText none true).parse = .ok n ∧
      (∀ m ∈ n.childrenAt .definitions, m.StandsAlone nestedText fun t c => ∃ info,
        (ofText t none true).parse = .ok (.mk .document info [.children .definitions [c]])) ∧
      ∀ m, n.Below m →
        (m.kind.isValue → m.StandsAlone nestedText fun t c =>
          (ofText t none true).parseValue = .ok c) ∧
        (m.kind.isType → m.StandsAlone nestedText fun t c =>
          (ofText t none true).parseType = .ok c) := by
  obtain ⟨n, hn⟩ : ∃ n, (ofText nestedText none true).parse = .ok n :=
    exists_of_isOk (by decide +kernel)
  exact ⟨n, hn, standsAlone_of_parse hn none⟩

end Parser.Document

end GraphSchema
