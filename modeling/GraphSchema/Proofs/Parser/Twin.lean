import GraphSchema.Proofs.Grammar.Viable
import GraphSchema.Proofs.Node.Relabel
import GraphSchema.Proofs.Parser.Extent
import GraphSchema.Proofs.Parser.Reading

/-!
# Two documents side by side

Two documents are read by one rule. As long as their tokens match, the rule does in the second
document what it does in the first one: it takes tokens that match, and its results match. It may
look at one token behind those that it takes, so that this token has to match as well; where the
second document ends the first one may go on instead. Where the rule fails at a token of the first
document, the tokens before it are viable, and the rule fails in each second document in which the
tokens match up to this one.

## Main definitions

* `Twin`: two documents with tokens that match.
* `Parse.Tracks`: a rule that does the same in both documents.
* `Parse.TracksWhere`: the same where the tokens ahead satisfy a condition.

## Main statements

* `Parse.TracksWhere.bind`: rules in sequence.
* `Parse.tracks_peek_bind`, `Parse.tracks_peek_ite`, `Parse.tracks_advance` and the like: single
  tokens.
-/

namespace GraphSchema

/-! ## Tokens that match -/

/-- Two documents, with a relation between the tokens of the first one and those of the second one.
Whether the second one may be `cut` says that it may end where the first one goes on. Metadata of
nodes are compared by two views on them. -/
structure Twin where
  first : Parser.Document
  second : Parser.Document
  tokens : List Token
  cut : Prop
  same : Token → Token → Prop
  stops : Nat → Nat → Prop
  view : Metadata → Metadata
  view' : Metadata → Metadata
  room : first.budget ≤ second.budget
  fits : tokens.length ≤ first.budget
  kind_eq : ∀ {t t'}, same t t' → t'.kind = t.kind
  value_eq : ∀ {t t'}, same t t' → t'.value = t.value
  stop : ∀ {t t'}, same t t' → stops t.stop t'.stop
  info : ∀ {t t' k k'}, same t t' → stops k k' → view (first.info t k) = view' (second.info t' k')
  partner : ∀ t ∈ tokens, ∃ t', same t t'
  ordered : tokens.Pairwise fun t u => t.start < u.start

namespace Twin

variable {T : Twin} {t t' : Token} {us us' ts ts' rest rest' : List Token} {n k k' : Nat}

theorem isWord_eq (h : T.same t t') (w : Text) : t'.isWord w = t.isWord w := by
  rw [Token.isWord, Token.isWord, T.kind_eq h, T.value_eq h]

/-- The first `n` tokens match. If the second document may be cut, it may end with the last of
these. -/
inductive Agree (T : Twin) : Nat → List Token → List Token → Prop
  | nil (ts ts' : List Token) : Agree T 0 ts ts'
  | cut {t t' : Token} {ts ts' : List Token} (hcut : T.cut) (h : t'.kind = .finish) :
      Agree T 1 (t :: ts) (t' :: ts')
  | cons {t t' : Token} {ts ts' : List Token} {n : Nat} (h : T.same t t')
      (rest : Agree T n ts ts') : Agree T (n + 1) (t :: ts) (t' :: ts')

namespace Agree

/-- Behind tokens that match. -/
theorem drop (h : T.Agree n (us ++ rest) (us' ++ rest')) (hus : List.Forall₂ T.same us us')
    (hn : us.length < n) : T.Agree (n - us.length) rest rest' := by
  induction hus generalizing n with
  | nil => exact h
  | cons _ hus ih =>
    rw [List.length_cons] at hn ⊢
    cases h with
    | nil => omega
    | cut => omega
    | cons _ h => rw [Nat.add_sub_add_right]; exact ih h (by omega)

/-- The next token matches if there are more to come, or the second document is whole. -/
theorem exists_cons (h : T.Agree n (t :: ts) ts') (hn : 1 < n ∨ ¬T.cut ∧ 0 < n) :
    ∃ t' rest', ts' = t' :: rest' ∧ T.same t t' := by
  cases h with
  | nil => omega
  | cut hcut => exact absurd hcut (hn.resolve_left (Nat.lt_irrefl 1)).1
  | cons h => exact ⟨_, _, rfl, h⟩

/-- A token among those that match. -/
theorem exists_getElem? {j : Nat} (h : T.Agree n ts ts') (ht : ts[j]? = some t)
    (hj : j + 1 < n ∨ ¬T.cut ∧ j < n) : ∃ t', ts'[j]? = some t' ∧ T.same t t' := by
  induction j generalizing n ts ts' with
  | zero =>
    obtain ⟨rest, rfl⟩ : ∃ rest, ts = t :: rest := by
      cases ts with
      | nil => cases ht
      | cons u rest => cases ht; exact ⟨rest, rfl⟩
    obtain ⟨t', rest', rfl, hsame⟩ := h.exists_cons hj
    exact ⟨t', rfl, hsame⟩
  | succ j ih =>
    cases h with
    | nil => omega
    | cut hcut => exact absurd hcut (hj.resolve_left (by omega)).1
    | cons _ h =>
      exact ih h ht (hj.imp Nat.lt_of_succ_lt_succ (And.imp_right Nat.lt_of_succ_lt_succ))

/-- The next token matches, or the second document is cut in front of it. -/
theorem exists_next (h : T.Agree n (t :: ts) ts') (hn : 0 < n) :
    ∃ t' rest', ts' = t' :: rest' ∧ (T.same t t' ∨ T.cut ∧ t'.kind = .finish) := by
  cases h with
  | nil => omega
  | cut hcut h => exact ⟨_, _, rfl, .inr ⟨hcut, h⟩⟩
  | cons h => exact ⟨_, _, rfl, .inl h⟩

theorem of_forall₂ (h : List.Forall₂ T.same us us') :
    T.Agree us.length (us ++ rest) (us' ++ rest') := by
  induction h with
  | nil => exact .nil _ _
  | cons h _ ih => exact .cons h ih

/-- Up to the end of the second document. -/
theorem of_cut (h : List.Forall₂ T.same us us') (hcut : T.cut) (ht : t'.kind = .finish) :
    T.Agree (us.length + 1) (us ++ t :: ts) (us' ++ t' :: ts') := by
  induction h with
  | nil => exact .cut hcut ht
  | cons h _ ih => exact .cons h ih

end Agree

/-- The ends of tokens that match. -/
theorem stops_stopAfter (h : List.Forall₂ T.same us us') (hk : us ≠ [] ∨ T.stops k k') :
    T.stops (stopAfter k us) (stopAfter k' us') := by
  induction h generalizing k k' with
  | nil => exact hk.resolve_left (absurd rfl)
  | @cons t t' us us' h hus ih =>
    rw [← List.singleton_append, stopAfter_append, ← List.singleton_append (l := us'),
      stopAfter_append]
    exact ih (.inr (T.stop h))

theorem exists_stops_stopAfter (h : us ⊆ T.tokens) (hk : us ≠ [] ∨ ∃ k', T.stops k k') :
    ∃ k', T.stops (stopAfter k us) k' := by
  cases hlast : us.getLast? with
  | none =>
    obtain rfl := List.getLast?_eq_none_iff.1 hlast
    exact hk.resolve_left (absurd rfl)
  | some t =>
    obtain ⟨t', ht⟩ := T.partner t (h (List.mem_of_getLast? hlast))
    exact ⟨t'.stop, by rw [stopAfter, hlast]; exact T.stop ht⟩

end Twin

/-! ## Parsers that match -/

/-- The parser takes the tokens `us`, and `rest` remains in front of `e`. -/
structure Parser.Passes (p : Parser) (e : Option SyntaxError) (us rest : List Token) (q : Parser) :
    Prop where
  holds : q.HoldsUntil e rest
  lastStop : q.lastStop = stopAfter p.lastStop us

theorem Parser.Passes.trans {p q q' : Parser} {e : Option SyntaxError}
    {us vs rest rest' : List Token} (h : p.Passes e us rest q) (h' : q.Passes e vs rest' q') :
    p.Passes e (us ++ vs) rest' q' :=
  ⟨h'.holds, by rw [stopAfter_append, ← h.lastStop]; exact h'.lastStop⟩

/-- The error says that a token is out of place, or that the text ends too early. -/
def SyntaxError.IsUnexpected (e : SyntaxError) : Prop :=
  e.cause.category = .unexpectedToken ∨ e.cause.category = .unexpectedEnd

namespace Parse

variable {α β : Type} {T : Twin} {C : List Token → Prop} {k m n : Nat} {p q : Parser}
  {us ts rest : List Token}

/-- A parser of the first document, of which `k` says whether it has taken a token before. -/
structure Ready (T : Twin) (k : Nat) (p : Parser) (ts : List Token) : Prop where
  holds : p.HoldsUntil none ts
  suffix : ts <:+ T.tokens
  stops : 0 < k → ∃ k', T.stops p.lastStop k'

/-- A parser of the second document with at least `n` tokens that match. -/
structure Mate (T : Twin) (n k : Nat) (p : Parser) (ts : List Token) (p' : Parser)
    (ts' : List Token) (e : Option SyntaxError) : Prop where
  holds : p'.HoldsUntil e ts'
  agree : T.Agree n ts ts'
  stops : 0 < k → T.stops p.lastStop p'.lastStop

/-- The rule has taken `us` from the first document, not to its end if the second one may be cut. It
takes tokens that match from the second one, if these and one more are there. -/
structure Tracked (T : Twin) (k : Nat) (r' : Parse α) (V : α → α → Prop) (p : Parser)
    (us rest : List Token) (a : α) (q : Parser) : Prop where
  passes : p.Passes none us rest q
  inner : T.cut → ∀ t ∈ us, t.kind ≠ .finish
  partner : ∃ a', V a a'
  follows : ∀ {n p' ts' e}, Mate T n k p (us ++ rest) p' ts' e → us.length < n →
    ∃ a' q' us' rest', ts' = us' ++ rest' ∧ List.Forall₂ T.same us us' ∧
      r' T.second p' = .ok a' q' ∧ p'.Passes e us' rest' q' ∧ V a a'

/-- The rule has failed at the first one of the tokens `t :: rest`, behind `us`. The tokens before
it are viable, and the rule fails in each second document where the tokens match so far. -/
structure Blames (T : Twin) (k : Nat) (r' : Parse α) (S : Language Lexeme) (p : Parser)
    (us : List Token) (t : Token) (rest : List Token) : Prop where
  viable : Viable S (us.map Token.lexeme)
  fails : ¬T.cut → ∀ {p' ts' e}, Mate T (us.length + 1) k p (us ++ t :: rest) p' ts' e →
    ∃ f q', r' T.second p' = .error f q'

/-- Where `C` holds of the tokens ahead, the two rules do the same. They take at least `m` tokens,
whose lexemes belong to `S`, and their results are related by `V`. -/
structure TracksWhere (T : Twin) (C : List Token → Prop) (k m : Nat) (r r' : Parse α)
    (S : Language Lexeme) (V : α → α → Prop) : Prop where
  ok : ∀ {p ts a q}, Ready T k p ts → C ts → r T.first p = .ok a q →
    ∃ us rest, ts = us ++ rest ∧ m ≤ us.length ∧ us.map Token.lexeme ∈ S ∧
      Tracked T k r' V p us rest a q
  error : ∀ {p ts e q}, Ready T k p ts → C ts → r T.first p = .error e q →
    e.IsUnexpected ∧ (e.position = T.first.length ∨ ∃ us t rest, ts = us ++ t :: rest ∧
      e.position = t.start ∧ Blames T k r' S p us t rest)

/-- The two rules do the same. -/
abbrev Tracks (T : Twin) (k m : Nat) (r r' : Parse α) (S : Language Lexeme) (V : α → α → Prop) :
    Prop :=
  TracksWhere T (fun _ => True) k m r r' S V

/-- The next token is the given one. -/
def Next (t : Token) (ts : List Token) : Prop := ts.head? = some t

theorem Next.unique {t u : Token} (ht : Next t ts) (hu : Next u ts) : t = u :=
  Option.some.inj (ht.symm.trans hu)

theorem Ready.mem (h : Ready T k p (us ++ rest)) : us ⊆ T.tokens :=
  fun _ ht => h.suffix.subset (List.mem_append_left _ ht)

/-- Behind tokens that a rule has taken. -/
theorem Ready.next (h : Ready T k p (us ++ rest)) (hq : p.Passes none us rest q)
    (hm : m ≤ us.length) : Ready T (k + m) q rest where
  holds := hq.holds
  suffix := (List.suffix_append us rest).trans h.suffix
  stops hk := by
    rw [hq.lastStop]
    refine Twin.exists_stops_stopAfter h.mem ?_
    by_cases hus : us = []
    · subst hus
      exact .inr (h.stops (by simp at hm; omega))
    · exact .inl hus

theorem Mate.next {p' q' : Parser} {us' rest' : List Token} {e : Option SyntaxError}
    (h : Mate T n k p (us ++ rest) p' (us' ++ rest') e) (hus : List.Forall₂ T.same us us')
    (hq : p.Passes none us rest q) (hq' : p'.Passes e us' rest' q') (hm : m ≤ us.length)
    (hn : us.length < n) : Mate T (n - us.length) (k + m) q rest q' rest' e where
  holds := hq'.holds
  agree := h.agree.drop hus hn
  stops hk := by
    rw [hq.lastStop, hq'.lastStop]
    refine Twin.stops_stopAfter hus ?_
    by_cases hnil : us = []
    · subst hnil
      exact .inr (h.stops (by simp at hm; omega))
    · exact .inl hnil

theorem Ready.mono (h : Ready T n p ts) (hk : k ≤ n) : Ready T k p ts :=
  ⟨h.holds, h.suffix, fun hlt => h.stops (by omega)⟩

theorem Mate.mono {p' : Parser} {ts' : List Token} {e : Option SyntaxError} {l : Nat}
    (h : Mate T l n p ts p' ts' e) (hk : k ≤ n) : Mate T l k p ts p' ts' e :=
  ⟨h.holds, h.agree, fun hlt => h.stops (by omega)⟩

/-- In a list of tokens that start one behind the other a token is known by its start. -/
theorem eq_of_start {vs rest' : List Token} {t u : Token}
    (h : (us ++ t :: rest).Pairwise fun t u => t.start < u.start)
    (hts : us ++ t :: rest = vs ++ u :: rest') (hstart : t.start = u.start) :
    us = vs ∧ t = u ∧ rest = rest' := by
  induction us generalizing vs with
  | nil =>
    cases vs with
    | nil =>
      obtain ⟨rfl, rfl⟩ := List.cons.inj hts
      exact ⟨rfl, rfl, rfl⟩
    | cons v vs =>
      obtain ⟨rfl, rfl⟩ := List.cons.inj hts
      exact absurd hstart (Nat.ne_of_lt ((List.pairwise_cons.1 h).1 u (by simp)))
  | cons v us ih =>
    cases vs with
    | nil =>
      obtain ⟨rfl, rfl⟩ := List.cons.inj hts
      exact absurd hstart.symm (Nat.ne_of_lt ((List.pairwise_cons.1 h).1 t (by simp)))
    | cons w vs =>
      obtain ⟨rfl, htail⟩ := List.cons.inj hts
      obtain ⟨rfl, rfl, rfl⟩ := ih (List.pairwise_cons.1 h).2 htail
      exact ⟨rfl, rfl, rfl⟩

theorem Ready.pairwise (h : Ready T k p ts) : ts.Pairwise fun t u => t.start < u.start :=
  T.ordered.sublist h.suffix.sublist

namespace TracksWhere

variable {r r' : Parse α} {f f' : α → Parse β} {S S' : Language Lexeme} {V V' : α → α → Prop}
  {W : β → β → Prop} {C' : List Token → Prop}

/-- The tokens taken do not depend on the second document. -/
theorem tracked (h : TracksWhere T C k m r r' S V) {a : α} (hp : Ready T k p (us ++ rest))
    (hC : C (us ++ rest)) (hr : r T.first p = .ok a q) (hq : q.HoldsUntil none rest) :
    Tracked T k r' V p us rest a q := by
  obtain ⟨vs, rest', hts, -, -, htracked⟩ := h.ok hp hC hr
  obtain rfl := htracked.passes.holds.unique hq
  obtain rfl := List.append_cancel_right hts
  exact htracked

/-- More is known of the tokens ahead, less is asked of what is taken. -/
theorem conseq (h : TracksWhere T C k m r r' S V) (hC : ∀ ts, C' ts → C ts) (hm : n ≤ m)
    (hS : S ≤ S') (hV : ∀ a a', V a a' → V' a a') : TracksWhere T C' k n r r' S' V' where
  ok hp hC' hr := by
    obtain ⟨us, rest, rfl, hlen, hus, htracked⟩ := h.ok hp (hC _ hC') hr
    obtain ⟨a', ha⟩ := htracked.partner
    refine ⟨us, rest, rfl, Nat.le_trans hm hlen, hS hus, htracked.passes, htracked.inner,
      ⟨a', hV _ _ ha⟩, ?_⟩
    intro n p' ts' e hp' hn
    obtain ⟨b, q', us', rest', hts, hsame, hr', hq', hb⟩ := htracked.follows hp' hn
    exact ⟨b, q', us', rest', hts, hsame, hr', hq', hV _ _ hb⟩
  error hp hC' hr := by
    obtain ⟨he, hwhere⟩ := h.error hp (hC _ hC') hr
    refine ⟨he, hwhere.imp_right ?_⟩
    rintro ⟨us, t, rest, rfl, hpos, hblames⟩
    exact ⟨us, t, rest, rfl, hpos, hblames.viable.mono hS, hblames.fails⟩

theorem lang (h : TracksWhere T C k m r r' S V) (hS : S ≤ S') : TracksWhere T C k m r r' S' V :=
  h.conseq (fun _ h => h) (Nat.le_refl m) hS fun _ _ h => h

theorem mono (h : TracksWhere T C k m r r' S V) (hm : n ≤ m) : TracksWhere T C k n r r' S V :=
  h.conseq (fun _ h => h) hm (fun _ h => h) fun _ _ h => h

theorem weaken (h : TracksWhere T C k m r r' S V) (hV : ∀ a a', V a a' → V' a a') :
    TracksWhere T C k m r r' S V' :=
  h.conseq (fun _ h => h) (Nat.le_refl m) (fun _ h => h) hV

theorem restrict (h : Tracks T k m r r' S V) : TracksWhere T C k m r r' S V :=
  h.conseq (fun _ _ => trivial) (Nat.le_refl m) (fun _ h => h) fun _ _ h => h

/-- No tokens are ahead that satisfy the condition. -/
theorem of_forall_not (h : ∀ ts, ¬C ts) : TracksWhere T C k m r r' S V :=
  ⟨fun _ hC _ => (h _ hC).elim, fun _ hC _ => (h _ hC).elim⟩

/-- It is known that a token was taken before. -/
theorem behind (h : TracksWhere T C k m r r' S V) (hk : k ≤ n) : TracksWhere T C n m r r' S V where
  ok hp hC hr := by
    obtain ⟨us, rest, rfl, hlen, hus, htracked⟩ := h.ok (hp.mono hk) hC hr
    exact ⟨us, rest, rfl, hlen, hus, htracked.passes, htracked.inner, htracked.partner,
      fun hp' => htracked.follows (hp'.mono hk)⟩
  error hp hC hr := by
    obtain ⟨he, hwhere⟩ := h.error (hp.mono hk) hC hr
    refine ⟨he, hwhere.imp_right ?_⟩
    rintro ⟨us, t, rest, rfl, hpos, hblames⟩
    exact ⟨us, t, rest, rfl, hpos, hblames.viable, fun hcut _ _ _ hp' =>
      hblames.fails hcut (hp'.mono hk)⟩

/-- One rule after the other. -/
theorem bind [Completes S'] (h : TracksWhere T C k m r r' S V)
    (hf : ∀ a a', V a a' → Tracks T (k + m) n (f a) (f' a') S' W) :
    TracksWhere T C k (m + n) (r >>= f) (r' >>= f') (S * S') W where
  ok := by
    intro p ts b q hp hC hrun
    obtain ⟨a, mid, hr, hk⟩ := bind_eq_ok.1 hrun
    obtain ⟨us, ts, rfl, hm, hus, hfirst⟩ := h.ok hp hC hr
    have hmid := hp.next hfirst.passes hm
    obtain ⟨a', ha⟩ := hfirst.partner
    obtain ⟨vs, rest, rfl, hn, hvs, hsecond⟩ := (hf a a' ha).ok hmid trivial hk
    refine ⟨us ++ vs, rest, by rw [List.append_assoc], ?_, ?_,
      hfirst.passes.trans hsecond.passes, fun hcut t ht => (List.mem_append.1 ht).elim
        (hfirst.inner hcut t) (hsecond.inner hcut t), hsecond.partner, ?_⟩
    · rw [List.length_append]
      exact Nat.add_le_add hm hn
    · rw [List.map_append]
      exact Language.append_mem_mul hus hvs
    · intro l p' ts' e hp' hl
      rw [List.append_assoc] at hp'
      rw [List.length_append] at hl
      obtain ⟨a', mid', us', ts', rfl, hsame, hr', hq', ha⟩ := hfirst.follows hp' (by omega)
      have htracked := (hf a a' ha).tracked hmid trivial hk hsecond.passes.holds
      obtain ⟨b', q', vs', rest', rfl, hsame', hk', hq'', hb⟩ :=
        htracked.follows (hp'.next hsame hfirst.passes hq' hm (by omega)) (by omega)
      exact ⟨b', q', us' ++ vs', rest', by rw [List.append_assoc], List.rel_append hsame hsame',
        (bind_ok hr').trans hk', hq'.trans hq'', hb⟩
  error := by
    intro p ts e q hp hC hrun
    rcases bind_eq_error.1 hrun with hr | ⟨a, mid, hr, hk⟩
    · obtain ⟨he, hwhere⟩ := h.error hp hC hr
      refine ⟨he, hwhere.imp_right ?_⟩
      rintro ⟨us, t, rest, rfl, hpos, hblames⟩
      refine ⟨us, t, rest, rfl, hpos, hblames.viable.left, fun hcut _ _ _ hp' => ?_⟩
      obtain ⟨f, q', hr'⟩ := hblames.fails hcut hp'
      exact ⟨f, q', bind_of_error hr'⟩
    · obtain ⟨us, ts, rfl, hm, hus, hfirst⟩ := h.ok hp hC hr
      have hmid := hp.next hfirst.passes hm
      obtain ⟨a', ha⟩ := hfirst.partner
      obtain ⟨he, hwhere⟩ := (hf a a' ha).error hmid trivial hk
      refine ⟨he, or_iff_not_imp_left.2 fun hend => ?_⟩
      obtain ⟨vs, t, rest, rfl, hpos, hblames⟩ := hwhere.resolve_left hend
      refine ⟨us ++ vs, t, rest, by rw [List.append_assoc], hpos, ?_, fun hcut p' ts' e hp' => ?_⟩
      · rw [List.map_append]
        exact .append hus hblames.viable
      · rw [List.append_assoc, List.length_append] at hp'
        obtain ⟨a', mid', us', ts', rfl, hsame, hr', hq', ha⟩ := hfirst.follows hp' (by omega)
        obtain ⟨-, hwhere⟩ := (hf a a' ha).error hmid trivial hk
        obtain ⟨ws, u, rest', hts, hpos', hblames⟩ := hwhere.resolve_left hend
        have hstart := Int.ofNat.inj (hpos.symm.trans hpos')
        obtain ⟨rfl, rfl, rfl⟩ := eq_of_start hmid.pairwise hts hstart
        have hnext := hp'.next hsame hfirst.passes hq' hm (by omega)
        rw [Nat.add_assoc, Nat.add_sub_cancel_left] at hnext
        obtain ⟨f, q', hk'⟩ := hblames.fails hcut hnext
        exact ⟨f, q', (bind_ok hr').trans hk'⟩

end TracksWhere

/-! ## Rules that take no token -/

theorem tracks_pure {V : α → α → Prop} {a a' : α} (h : V a a') :
    Tracks T k 0 (pure a) (pure a') 1 V where
  ok := by
    intro p ts b q hp _ hr
    cases hr
    refine ⟨[], ts, rfl, Nat.zero_le _, rfl, ⟨hp.holds, rfl⟩, nofun, ⟨a', h⟩, ?_⟩
    intro n p' ts' e hp' _
    exact ⟨a', p', [], ts', rfl, .nil, rfl, ⟨hp'.holds, rfl⟩, h⟩
  error _ _ hr := by cases hr

/-- A rule that fails at the end of the text. -/
theorem tracks_failAtEnd {r' : Parse α} {S : Language Lexeme} {V : α → α → Prop} :
    Tracks T k m failAtEnd r' S V where
  ok _ _ hr := by cases hr
  error _ _ hr := by
    cases hr
    exact ⟨.inr rfl, .inl rfl⟩

/-- A rule that fails at the next token. -/
theorem tracks_failAt {r' : Parse α} {S : Language Lexeme} [hS : Completes S] {V : α → α → Prop}
    {t : Token} {cause : SyntaxError.Cause} (hcause : cause.category = .unexpectedToken ∨
      cause.category = .unexpectedEnd) (hr' : ∀ d p, ∃ f q, r' d p = .error f q) :
    TracksWhere T (Next t) k m (failAt t cause) r' S V where
  ok _ _ hr := by cases hr
  error := by
    intro p ts e q hp hnext hr
    cases hr
    obtain ⟨rest, rfl⟩ := List.head?_eq_some_iff.1 hnext
    exact ⟨hcause, .inr ⟨[], t, rest, rfl, rfl, hS.viable_nil, fun _ _ _ _ _ => hr' _ _⟩⟩

theorem exists_failAt {t : Token} {cause : SyntaxError.Cause} (d : Parser.Document) (p : Parser) :
    ∃ f q, (failAt t cause : Parse α) d p = .error f q :=
  ⟨_, _, rfl⟩

theorem tracks_unexpected {S : Language Lexeme} [Completes S] {V : α → α → Prop} {t t' : Token} :
    TracksWhere T (Next t) k m (unexpected t) (unexpected t') S V :=
  tracks_failAt (by split <;> simp [SyntaxError.Cause.category]) exists_failAt

/-- A rule that depends on the room of its document. -/
theorem tracks_read_bind {f f' : Parser.Document → Parse α} {S : Language Lexeme}
    {V : α → α → Prop} (h : TracksWhere T C k m (f T.first) (f' T.second) S V) :
    TracksWhere T C k m (read >>= f) (read >>= f') S V where
  ok hp hC hr := by
    obtain ⟨us, rest, hts, hm, hus, htracked⟩ := h.ok hp hC hr
    exact ⟨us, rest, hts, hm, hus, htracked.passes, htracked.inner, htracked.partner,
      htracked.follows⟩
  error hp hC hr := by
    obtain ⟨he, hwhere⟩ := h.error hp hC hr
    refine ⟨he, hwhere.imp_right ?_⟩
    rintro ⟨us, t, rest, hts, hpos, hblames⟩
    exact ⟨us, t, rest, hts, hpos, hblames.viable, hblames.fails⟩

/-! ## Looking ahead -/

section Peek

variable {f f' : Token → Parse β} {S S' : Language Lexeme} {W : β → β → Prop}

/-- Looking ahead changes nothing about the tokens that are held. -/
theorem Ready.exists_peekAt {j : Nat} {t : Token}
    (hp : Ready T k p ts) (hj : ts[j]? = some t) :
    ∃ q, peekAt (j + 1 : Nat) T.first p = .ok t q ∧ Ready T k q ts ∧ q.lastStop = p.lastStop := by
  obtain ⟨q, hq, hh, hlast⟩ := peekAt_eq_until hp.holds hj
  exact ⟨q, hq T.first, ⟨hh, hp.suffix, fun hk => by rw [hlast]; exact hp.stops hk⟩, hlast⟩

theorem Mate.exists_peekAt {j : Nat} {t' : Token} {p' q : Parser} {ts' : List Token}
    {e : Option SyntaxError} (hp : Mate T n k p ts p' ts' e) (hlast : q.lastStop = p.lastStop)
    (hj : ts'[j]? = some t') :
    ∃ q', peekAt (j + 1 : Nat) T.second p' = .ok t' q' ∧ Mate T n k q ts q' ts' e ∧
      q'.lastStop = p'.lastStop := by
  obtain ⟨q', hq, hh, hlast'⟩ := peekAt_eq_until hp.holds hj
  refine ⟨q', hq T.second, ⟨hh, hp.agree, fun hk => ?_⟩, hlast'⟩
  rw [hlast, hlast']
  exact hp.stops hk

/-- A rule that looks ahead either does so, or fails at the end of the text. -/
theorem Ready.bind_peekAt {j : Nat} {a : EStateM.Result SyntaxError Parser β}
    (hp : Ready T k p ts) (hr : (peekAt (j + 1 : Nat) >>= f) T.first p = a) :
    (∃ t q, ts[j]? = some t ∧ Ready T k q ts ∧ q.lastStop = p.lastStop ∧ f t T.first q = a) ∨
      ∃ q, a = .error ⟨.unexpectedEnd, T.first.length⟩ q := by
  cases ht : ts[j]? with
  | some t =>
    obtain ⟨q, hq, hready, hlast⟩ := hp.exists_peekAt ht
    rw [bind_ok hq] at hr
    exact .inl ⟨t, q, rfl, hready, hlast, hr⟩
  | none =>
    cases hq : peekAt (j + 1 : Nat) T.first p with
    | ok t q =>
      have hlt := lt_length_of_peekAt (Parser.holds_iff.2 ⟨_, hp.holds⟩) hq
      exact absurd (List.getElem?_eq_none_iff.1 ht) (Nat.not_le_of_lt hlt)
    | error e q =>
      obtain rfl := eq_of_peekAt_error hp.holds hq
      exact .inr ⟨q, hr ▸ bind_of_error hq⟩

/-- A rule that looks at a token that it takes then. It does not fail at a token in front of this
one. -/
theorem tracks_peekAt_bind {j : Nat} (hj : j < m)
    (hf : ∀ t t', T.same t t' →
      TracksWhere T (fun ts => C ts ∧ ts[j]? = some t) k m (f t) (f' t') S W)
    (hlate : ∀ {t p us u rest e q}, Ready T k p (us ++ u :: rest) → C (us ++ u :: rest) →
      (us ++ u :: rest)[j]? = some t → f t T.first p = .error e q → e.position ≠ T.first.length →
        e.position = u.start → j ≤ us.length) :
    TracksWhere T C k m (peekAt (j + 1 : Nat) >>= f) (peekAt (j + 1 : Nat) >>= f') S W where
  ok := by
    intro p ts b q hp hC hr
    obtain ⟨t, q₁, ht, hq₁, hlast, hr⟩ := (hp.bind_peekAt hr).resolve_right
      (by rintro ⟨q, hq⟩; cases hq)
    obtain ⟨t', hsame⟩ := T.partner t (hp.suffix.subset (List.mem_of_getElem? ht))
    obtain ⟨us, rest, rfl, hm, hus, htracked⟩ := (hf t t' hsame).ok hq₁ ⟨hC, ht⟩ hr
    refine ⟨us, rest, rfl, hm, hus, ?_, htracked.inner, htracked.partner, ?_⟩
    · exact ⟨htracked.passes.holds, by rw [htracked.passes.lastStop, hlast]⟩
    · intro n p' ts' e hp' hn
      obtain ⟨t', ht', hsame⟩ := hp'.agree.exists_getElem? ht (.inl (by omega))
      obtain ⟨q₁', hq', hmate, hlast'⟩ := hp'.exists_peekAt hlast ht'
      have htracked := (hf t t' hsame).tracked hq₁ ⟨hC, ht⟩ hr htracked.passes.holds
      obtain ⟨b', q', us', rest', hts', hus', hr', hpass, hb⟩ := htracked.follows hmate hn
      exact ⟨b', q', us', rest', hts', hus', (bind_ok hq').trans hr',
        ⟨hpass.holds, by rw [hpass.lastStop, hlast']⟩, hb⟩
  error := by
    intro p ts e q hp hC hr
    rcases hp.bind_peekAt hr with ⟨t, q₁, ht, hq₁, hlast, hr⟩ | ⟨q', hq⟩
    · obtain ⟨t', hsame⟩ := T.partner t (hp.suffix.subset (List.mem_of_getElem? ht))
      obtain ⟨he, hwhere⟩ := (hf t t' hsame).error hq₁ ⟨hC, ht⟩ hr
      refine ⟨he, or_iff_not_imp_left.2 fun hend => ?_⟩
      obtain ⟨us, u, rest, rfl, hpos, hblames⟩ := hwhere.resolve_left hend
      refine ⟨us, u, rest, rfl, hpos, hblames.viable, fun hcut p' ts' e' hp' => ?_⟩
      have hlen := hlate hq₁ hC ht hr hend hpos
      obtain ⟨t', ht', hsame⟩ := hp'.agree.exists_getElem? ht (.inr ⟨hcut, by omega⟩)
      obtain ⟨q₁', hq', hmate, -⟩ := hp'.exists_peekAt hlast ht'
      obtain ⟨-, hwhere⟩ := (hf t t' hsame).error hq₁ ⟨hC, ht⟩ hr
      obtain ⟨vs, v, rest', hts, hpos', hblames⟩ := hwhere.resolve_left hend
      obtain ⟨rfl, rfl, rfl⟩ := eq_of_start hp.pairwise hts (Int.ofNat.inj (hpos.symm.trans hpos'))
      obtain ⟨g, r', hfail⟩ := hblames.fails hcut hmate
      exact ⟨g, r', (bind_ok hq').trans hfail⟩
    · cases hq
      exact ⟨.inr rfl, .inl rfl⟩

/-- A rule that looks at the next token, and takes it then. -/
theorem tracks_peek_bind (hm : 0 < m)
    (hf : ∀ t t', T.same t t' →
      TracksWhere T (fun ts => C ts ∧ Next t ts) k m (f t) (f' t') S W) :
    TracksWhere T C k m (peek >>= f) (peek >>= f') S W :=
  tracks_peekAt_bind (j := 0) hm
    (fun t t' h => (hf t t' h).conseq
      (fun ts hts => ⟨hts.1, by rw [Next, List.head?_eq_getElem?]; exact hts.2⟩) (Nat.le_refl m)
      (fun _ h => h) fun _ _ h => h)
    fun _ _ _ _ _ _ => Nat.zero_le _

/-- The same where it is known which token is ahead. -/
theorem tracks_peek_next {t : Token} (hm : 0 < m)
    (hf : ∀ t', T.same t t' → TracksWhere T (Next t) k m (f t) (f' t') S W) :
    TracksWhere T (Next t) k m (peek >>= f) (peek >>= f') S W := by
  refine tracks_peek_bind hm fun u u' hsame => ?_
  by_cases hu : u = t
  · subst hu
    exact (hf u' hsame).conseq (fun _ h => h.1) (Nat.le_refl m) (fun _ h => h) fun _ _ h => h
  · exact .of_forall_not fun ts h => hu (h.2.unique h.1)

/-- Two conditions on the tokens ahead, one of which holds. -/
theorem TracksWhere.cases {r r' : Parse β} {P : List Token → Prop}
    (hyes : TracksWhere T (fun ts => C ts ∧ P ts) k m r r' S W)
    (hno : TracksWhere T (fun ts => C ts ∧ ¬P ts) k m r r' S' W) :
    TracksWhere T C k m r r' (S + S') W where
  ok := by
    intro p ts a q hp hC hr
    by_cases hP : P ts
    · exact (hyes.lang fun _ h => .inl h).ok hp ⟨hC, hP⟩ hr
    · exact (hno.lang fun _ h => .inr h).ok hp ⟨hC, hP⟩ hr
  error := by
    intro p ts e q hp hC hr
    by_cases hP : P ts
    · exact (hyes.lang fun _ h => .inl h).error hp ⟨hC, hP⟩ hr
    · exact (hno.lang fun _ h => .inr h).error hp ⟨hC, hP⟩ hr

/-- A rule that goes on in one of two ways, as the next token says. Where the second document may
be cut, the token for the end of a text says no. The rule that is taken if the token says yes takes
it. -/
theorem tracks_peek_ite {c : Token → Prop} [DecidablePred c] {g g' : Parse β}
    (hc : ∀ t t', T.same t t' → (c t' ↔ c t)) (hfinish : T.cut → ∀ t, t.kind = .finish → ¬c t)
    (hyes : ∀ t t', T.same t t' → c t →
      TracksWhere T (fun ts => C ts ∧ Next t ts) k 1 (f t) (f' t') S W)
    (hno : TracksWhere T C k 0 g g' S' W) :
    TracksWhere T C k 0 (peek >>= fun t => if c t then f t else g)
      (peek >>= fun t => if c t then f' t else g') (S + S') W := by
  refine TracksWhere.cases (P := fun ts => ∃ t, Next t ts ∧ c t) ?_ ?_
  · refine (tracks_peek_bind (m := 1) Nat.one_pos fun t t' hsame => ?_).mono (Nat.zero_le 1)
    by_cases ht : c t
    · rw [if_pos ht, if_pos ((hc t t' hsame).2 ht)]
      exact (hyes t t' hsame ht).conseq (fun _ h => ⟨h.1.1, h.2⟩) (Nat.le_refl 1) (fun _ h => h)
        fun _ _ h => h
    · refine .of_forall_not fun ts h => ?_
      obtain ⟨⟨-, u, hu, hcu⟩, hnext⟩ := h
      exact ht (hnext.unique hu ▸ hcu)
  · -- The next token says no, and so does the one in the second document.
    have hnext : ∀ {p q₁ : Parser} {t : Token} {ts ts' : List Token} {p' : Parser}
        {e : Option SyntaxError} {n : Nat}, Mate T n k p ts p' ts' e → ts[0]? = some t → ¬c t →
        q₁.lastStop = p.lastStop → 0 < n →
        ∃ t' q', peek T.second p' = .ok t' q' ∧ ¬c t' ∧ Mate T n k q₁ ts q' ts' e ∧
          q'.lastStop = p'.lastStop := by
      intro p q₁ t ts ts' p' e n hp' ht hct hlast hn
      obtain ⟨rest, rfl⟩ := List.head?_eq_some_iff.1 (List.head?_eq_getElem? ▸ ht)
      obtain ⟨t', rest', rfl, ht'⟩ := hp'.agree.exists_next hn
      obtain ⟨q', hq', hmate, hlast'⟩ := hp'.exists_peekAt (j := 0) hlast rfl
      refine ⟨t', q', hq', ?_, hmate, hlast'⟩
      exact ht'.elim (fun hsame => (hc t t' hsame).not.2 hct) fun h => hfinish h.1 t' h.2
    have hnot : ∀ {ts : List Token} {t : Token}, (¬∃ t, Next t ts ∧ c t) → ts[0]? = some t →
        ¬c t := fun hP ht hct => hP ⟨_, by rw [Next, List.head?_eq_getElem?]; exact ht, hct⟩
    constructor
    · rintro p ts b q hp ⟨hC, hP⟩ hr
      obtain ⟨t, q₁, ht, hq₁, hlast, hr⟩ := (hp.bind_peekAt (j := 0) hr).resolve_right
        (by rintro ⟨q, hq⟩; cases hq)
      have hct := hnot hP ht
      rw [if_neg hct] at hr
      obtain ⟨us, rest, rfl, hm, hus, htracked⟩ := hno.ok hq₁ hC hr
      refine ⟨us, rest, rfl, hm, hus, ?_, htracked.inner, htracked.partner, ?_⟩
      · exact ⟨htracked.passes.holds, by rw [htracked.passes.lastStop, hlast]⟩
      · intro n p' ts' e hp' hn
        obtain ⟨t', q₁', hq', hct', hmate, hlast'⟩ := hnext hp' ht hct hlast (by omega)
        obtain ⟨b', q', us', rest', hts', hus', hr', hpass, hb⟩ := htracked.follows hmate hn
        refine ⟨b', q', us', rest', hts', hus', (bind_ok hq').trans ?_,
          ⟨hpass.holds, by rw [hpass.lastStop, hlast']⟩, hb⟩
        rw [if_neg hct']
        exact hr'
    · rintro p ts e q hp ⟨hC, hP⟩ hr
      rcases hp.bind_peekAt (j := 0) hr with ⟨t, q₁, ht, hq₁, hlast, hr⟩ | ⟨q', hq⟩
      · have hct := hnot hP ht
        rw [if_neg hct] at hr
        obtain ⟨he, hwhere⟩ := hno.error hq₁ hC hr
        refine ⟨he, hwhere.imp_right ?_⟩
        rintro ⟨us, u, rest, rfl, hpos, hblames⟩
        refine ⟨us, u, rest, rfl, hpos, hblames.viable, fun hcut p' ts' e' hp' => ?_⟩
        obtain ⟨t', q₁', hq', hct', hmate, -⟩ := hnext hp' ht hct hlast (Nat.succ_pos _)
        obtain ⟨g, r', hfail⟩ := hblames.fails hcut hmate
        refine ⟨g, r', (bind_ok hq').trans ?_⟩
        rw [if_neg hct']
        exact hfail
      · cases hq
        exact ⟨.inr rfl, .inl rfl⟩

end Peek

/-! ## Taking a token -/

open Grammar (only written)
open Lexeme (symbol word)

variable {t : Token} {S S' : Language Lexeme} {W : β → β → Prop}

theorem tracks_advance (ht : T.cut → t.kind ≠ .finish) :
    TracksWhere T (Next t) k 1 advance advance (only t.lexeme)
      (fun u u' => u = t ∧ T.same u u') where
  ok := by
    intro p ts u q hp hnext hr
    obtain ⟨rest, rfl⟩ := List.head?_eq_some_iff.1 hnext
    obtain ⟨q', hq, hh, hlast⟩ := advance_eq_until hp.holds
    rw [hq] at hr
    cases hr
    obtain ⟨t', hsame⟩ := T.partner _ (hp.suffix.subset List.mem_cons_self)
    refine ⟨[t], rest, rfl, Nat.le_refl 1, rfl, ⟨hh, hlast⟩, ?_, ⟨t', rfl, hsame⟩, ?_⟩
    · intro hcut u hu
      rw [List.mem_singleton.1 hu]
      exact ht hcut
    intro n p' ts' e hp' hn
    obtain ⟨t', rest', rfl, hsame⟩ := hp'.agree.exists_cons (.inl hn)
    obtain ⟨q', hq', hh', hlast'⟩ := advance_eq_until hp'.holds
    exact ⟨t', q', [t'], rest', rfl, .cons hsame .nil, hq' _, ⟨hh', hlast'⟩, rfl, hsame⟩
  error := by
    intro p ts e q hp hnext hr
    obtain rfl := eq_of_advance_error hp.holds hr
    exact ⟨.inr rfl, .inl rfl⟩

/-- A token that has to be of some sort is taken, and then the rule goes on. -/
theorem tracks_peek_advance {c : Token → Prop} [DecidablePred c] {cause : Token → SyntaxError.Cause}
    [Completes S] (hc : ∀ t t', T.same t t' → (c t' ↔ c t))
    (hfinish : T.cut → ∀ t, t.kind = .finish → ¬c t) (hS : ∀ t, c t → [t.lexeme] ∈ S)
    (hcause : ∀ t, (cause t).category = .unexpectedToken ∨ (cause t).category = .unexpectedEnd) :
    TracksWhere T C k 1 (peek >>= fun t => if c t then advance else failAt t (cause t))
      (peek >>= fun t => if c t then advance else failAt t (cause t)) S
      (fun t t' => c t ∧ T.same t t') := by
  refine tracks_peek_bind Nat.one_pos fun t t' hsame => ?_
  by_cases ht : c t
  · rw [if_pos ht, if_pos ((hc t t' hsame).2 ht)]
    refine (tracks_advance fun hcut h => hfinish hcut t h ht).conseq (fun _ h => h.2)
      (Nat.le_refl 1) ?_ ?_
    · rintro ls rfl
      exact hS t ht
    · rintro u u' ⟨rfl, hu⟩
      exact ⟨ht, hu⟩
  · rw [if_neg ht, if_neg (mt (hc t t' hsame).1 ht)]
    exact (tracks_failAt (hcause t) exists_failAt).conseq (fun _ h => h.2) (Nat.le_refl 1)
      (fun _ h => h) fun _ _ h => h

theorem tracks_expect (kind : Token.Kind) [Completes S] (hne : T.cut → kind ≠ .finish)
    (hS : ∀ t : Token, t.kind = kind → [t.lexeme] ∈ S) :
    TracksWhere T C k 1 (expect kind) (expect kind) S (fun t t' => t.kind = kind ∧ T.same t t') :=
  tracks_peek_advance (c := fun t => t.kind = kind) (fun t t' h => by rw [T.kind_eq h])
    (fun hcut t ht h => hne hcut (h ▸ ht)) hS fun _ => .inl rfl

theorem tracks_symbol (kind : Token.Kind) (hk : IsSymbol kind) (hne : T.cut → kind ≠ .finish)
    [Completes (only (symbol kind))] :
    TracksWhere T C k 1 (expect kind) (expect kind) (only (symbol kind))
      (fun t t' => t.kind = kind ∧ T.same t t') := by
  refine tracks_expect kind hne fun t ht => ?_
  rw [(Says.eq_symbol (t := t) rfl hk).1 ht]
  rfl

theorem tracks_expectWord (w : Text) [Completes (only (word w))] :
    TracksWhere T C k 1 (expectWord w) (expectWord w) (only (word w))
      (fun t t' => t.isWord w ∧ T.same t t') := by
  refine tracks_peek_advance (c := fun t => t.isWord w) (fun t t' h => by rw [T.isWord_eq h])
    (fun _ t ht h => ?_) (fun t ht => ?_) fun _ => .inl rfl
  · rw [← kind_lexeme, isWord_iff.1 h] at ht
    cases ht
  · rw [isWord_iff.1 ht]
    rfl

/-- What follows a token that may be there, in terms of the next token. -/
theorem skip_bind (kind : Token.Kind) (g : Bool → Parse β) :
    (skip kind >>= g) =
      peek >>= fun t => if t.kind = kind then advance >>= fun _ => g true else g false := by
  rw [skip, bind_assoc]
  congr
  funext t
  split
  · rw [bind_assoc]
    rfl
  · rfl

theorem ahead_bind (kind : Token.Kind) (g : Bool → Parse β) :
    (ahead kind >>= g) = peek >>= fun t => if t.kind = kind then g true else g false := by
  rw [ahead, bind_assoc]
  congr
  funext t
  rw [pure_bind]
  split <;> simp [*]

/-- A symbol that is ahead, and the rest of a rule. -/
theorem tracks_taken {kind : Token.Kind} (hk : IsSymbol kind) (hne : T.cut → kind ≠ .finish)
    {f f' : Parse β} [Completes S] (ht : t.kind = kind) (hf : Tracks T (k + 1) 0 f f' S W) :
    TracksWhere T (Next t) k 1 (advance >>= fun _ => f) (advance >>= fun _ => f')
      (only (symbol kind) * S) W := by
  have hlexeme : t.lexeme = symbol kind := (Says.eq_symbol (t := t) rfl hk).1 ht
  rw [← hlexeme]
  exact (tracks_advance fun hcut h => hne hcut (ht ▸ h)).bind fun _ _ _ => hf

/-- A token that may be there, and the rest of a rule in both cases. -/
theorem tracks_skip_bind (kind : Token.Kind) (hk : IsSymbol kind) (hne : T.cut → kind ≠ .finish)
    {f g : Bool → Parse β} [Completes S] (hyes : Tracks T (k + 1) 0 (f true) (g true) S W)
    (hno : TracksWhere T C k 0 (f false) (g false) S' W) :
    TracksWhere T C k 0 (skip kind >>= f) (skip kind >>= g) (only (symbol kind) * S + S') W := by
  rw [skip_bind, skip_bind]
  refine tracks_peek_ite (c := fun t => t.kind = kind) (fun t t' h => by rw [T.kind_eq h])
    (fun hcut t ht h => hne hcut (h ▸ ht)) (fun t t' hsame ht => ?_) hno
  exact (tracks_taken hk hne ht hyes).conseq (fun _ h => h.2) (Nat.le_refl 1) (fun _ h => h)
    fun _ _ h => h

/-- A token that may be there, in front of a rule that takes a token itself. -/
theorem tracks_skip_take (kind : Token.Kind) (hk : IsSymbol kind) (hne : T.cut → kind ≠ .finish)
    {f g : Bool → Parse β} [Completes S] (hyes : Tracks T (k + 1) 0 (f true) (g true) S W)
    (hno : TracksWhere T C k 1 (f false) (g false) S' W) :
    TracksWhere T C k 1 (skip kind >>= f) (skip kind >>= g) (only (symbol kind) * S + S') W := by
  rw [skip_bind, skip_bind]
  refine tracks_peek_bind Nat.one_pos fun t t' hsame => ?_
  by_cases ht : t.kind = kind
  · rw [if_pos ht, if_pos (by rw [T.kind_eq hsame, ht])]
    refine (tracks_taken hk hne ht hyes).conseq (fun _ h => h.2) (Nat.le_refl 1)
      (fun _ h => .inl h) fun _ _ h => h
  · rw [if_neg ht, if_neg (by rwa [T.kind_eq hsame])]
    exact hno.conseq (fun _ h => h.1) (Nat.le_refl 1) (fun _ h => .inr h) fun _ _ h => h

/-- A token that may be there opens a rule, which takes it. -/
theorem tracks_ahead_bind {kind : Token.Kind} (hne : kind ≠ .finish) {f g : Bool → Parse β}
    (hyes : TracksWhere T C k 1 (f true) (g true) S W)
    (hno : TracksWhere T C k 0 (f false) (g false) S' W) :
    TracksWhere T C k 0 (ahead kind >>= f) (ahead kind >>= g) (S + S') W := by
  rw [ahead_bind, ahead_bind]
  exact tracks_peek_ite (c := fun t => t.kind = kind) (fun t t' h => by rw [T.kind_eq h])
    (fun _ t ht h => hne (h ▸ ht)) (fun t t' _ _ => hyes.conseq (fun _ h => h.1) (Nat.le_refl 1)
      (fun _ h => h) fun _ _ h => h) hno

end Parse

end GraphSchema
