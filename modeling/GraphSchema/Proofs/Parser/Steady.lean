import GraphSchema.Proofs.Parser.Cursor
import GraphSchema.Proofs.Token.Reached

/-!
# Rules that end by themselves

The loops of the parser are bounded by the room that a document has for tokens. A rule is steady if
this bound never shows: every loop ends because the tokens do, or because there is an error, and in
a document with more room the rule does just the same. No steady rule looks behind the end of its
text, so that all of its errors are at a token or come from the lexer.

## Main definitions

* `Parse.Views`: two documents with one text, which differ in the room they have.
* `Parse.Views.Live`: the tokens up to the end of the text, or up to an error of the lexer.
* `Parse.SteadyAt`: what a rule does with given tokens ahead, in both documents.
* `Parse.Steady`: a rule that takes at least so many tokens, wherever it starts.

## Main statements

* `Parse.Steady.bind`, `Parse.Steady.bind_less`: rules in sequence.
* `Parse.steady_expect`, `Parse.steady_skip` and the like: single tokens.
* `Parse.steadyAt_itemsUntil`: loops.
-/

namespace GraphSchema

/-- The error is at a place of the text, or the lexer of the text meets it. -/
def SyntaxError.IsOf (source : Text) (e : SyntaxError) : Prop :=
  e.IsIn source ∨ ∃ l next, Lexer.Reached source l ∧ l.next = .error e next

namespace Parse

/-- A document, the room that another document with the same text has, and the error in which the
text ends, if it does not end by itself. -/
structure Views where
  first : Parser.Document
  length : Nat
  failure : Option SyntaxError

namespace Views

/-- The other document. -/
def second (v : Views) : Parser.Document := { v.first with length := v.length }

/-- The room that both documents have. -/
def room (v : Views) : Nat := min v.first.budget v.second.budget

/-- The tokens that stand in front of the end of the text, this end included, or in front of an
error of the lexer. -/
structure Live (v : Views) (ts : List Token) : Prop where
  within : ∀ t ∈ ts, t.start ≤ v.first.source.length
  finish : v.failure = none → ∃ t ∈ ts, t.kind = .finish
  failure : ∀ e ∈ v.failure, e.IsOf v.first.source

variable {v : Views} {t : Token} {ts : List Token}

theorem Live.tail (h : v.Live (t :: ts)) (ht : t.kind ≠ .finish) : v.Live ts where
  within := fun u hu => h.within u (List.mem_cons_of_mem _ hu)
  finish hv := by
    obtain ⟨u, hu, hk⟩ := h.finish hv
    rcases List.mem_cons.1 hu with rfl | hu
    · exact absurd hk ht
    · exact ⟨u, hu, hk⟩
  failure := h.failure

/-- Behind a token that is not the one for the end there is another one, or an error. -/
theorem Live.exists_second (h : v.Live ts) (hhead : ts.head? = some t) (ht : t.kind ≠ .finish)
    (hl : ts.length ≤ 1) : ∃ e, v.failure = some e := by
  cases hv : v.failure with
  | some e => exact ⟨e, rfl⟩
  | none =>
    obtain ⟨u, hu, hk⟩ := h.finish hv
    obtain ⟨rest, rfl⟩ : ∃ rest, ts = t :: rest := List.head?_eq_some_iff.1 hhead
    obtain rfl := List.eq_nil_of_length_eq_zero (Nat.le_zero.1 (Nat.le_of_succ_le_succ hl))
    rw [List.mem_singleton.1 hu] at hk
    exact absurd hk ht

/-- Where there is no further token there is an error. -/
theorem Live.exists_failure (h : v.Live []) : ∃ e, v.failure = some e := by
  cases hv : v.failure with
  | some e => exact ⟨e, rfl⟩
  | none =>
    obtain ⟨u, hu, -⟩ := h.finish hv
    cases hu

end Views

variable {α β γ : Type} {v : Views} {ts : List Token} {Q R : α → List Token → Prop}
  {r r' : Parse α}

/-- With the tokens `ts` ahead the two rules do the same in the two documents. If they succeed, `Q`
holds of the result and the tokens that they leave; if they fail, it is an error of the text. -/
structure SteadyAt (v : Views) (ts : List Token) (r r' : Parse α) (Q : α → List Token → Prop) :
    Prop where
  same : ∀ {p}, p.HoldsUntil v.failure ts → r' v.second p = r v.first p
  ok : ∀ {p a q}, p.HoldsUntil v.failure ts → r v.first p = .ok a q →
    ∃ rest, q.HoldsUntil v.failure rest ∧ Q a rest
  error : ∀ {p e q}, p.HoldsUntil v.failure ts → r v.first p = .error e q →
    e.IsOf v.first.source

namespace SteadyAt

theorem conseq (h : SteadyAt v ts r r' Q) (hQ : ∀ a rest, Q a rest → R a rest) :
    SteadyAt v ts r r' R where
  same := h.same
  ok hp hr := by
    obtain ⟨rest, hq, ha⟩ := h.ok hp hr
    exact ⟨rest, hq, hQ _ _ ha⟩
  error := h.error

/-- One rule after the other. -/
theorem bind {f f' : α → Parse β} {R : β → List Token → Prop} (hr : SteadyAt v ts r r' Q)
    (hf : ∀ a rest, Q a rest → SteadyAt v rest (f a) (f' a) R) :
    SteadyAt v ts (r >>= f) (r' >>= f') R where
  same {p} hp := by
    cases hrun : r v.first p with
    | error e q =>
      have hrun' := (hr.same hp).trans hrun
      exact (bind_of_error hrun').trans (bind_of_error hrun).symm
    | ok a q =>
      have hrun' := (hr.same hp).trans hrun
      obtain ⟨rest, hq, ha⟩ := hr.ok hp hrun
      rw [bind_ok hrun, bind_ok hrun']
      exact (hf a rest ha).same hq
  ok hp h := by
    obtain ⟨a, q, hrun, h⟩ := bind_eq_ok.1 h
    obtain ⟨rest, hq, ha⟩ := hr.ok hp hrun
    exact (hf a rest ha).ok hq h
  error hp h := by
    rcases bind_eq_error.1 h with h | ⟨a, q, hrun, h⟩
    · exact hr.error hp h
    · obtain ⟨rest, hq, ha⟩ := hr.ok hp hrun
      exact (hf a rest ha).error hq h

end SteadyAt

theorem steadyAt_pure {a : α} (h : Q a ts) : SteadyAt v ts (pure a) (pure a) Q where
  same _ := rfl
  ok hp hr := by
    cases hr
    exact ⟨ts, hp, h⟩
  error _ hr := by cases hr

/-- A rule that does the same for all tokens, and gives an error of the text. -/
theorem steadyAt_throw {e : SyntaxError} (h : e.IsOf v.first.source) :
    SteadyAt v ts (throw e) (throw e) Q where
  same _ := rfl
  ok _ hr := by cases hr
  error _ hr := by
    cases hr
    exact h

theorem isOf_start {t : Token} (h : t.start ≤ v.first.source.length) {cause : SyntaxError.Cause} :
    SyntaxError.IsOf v.first.source ⟨cause, t.start⟩ := by
  refine .inl ?_
  simp only [SyntaxError.IsIn]
  omega

theorem steadyAt_failAt {t : Token} {cause : SyntaxError.Cause}
    (h : t.start ≤ v.first.source.length) :
    SteadyAt v ts (failAt t cause) (failAt t cause) Q :=
  steadyAt_throw (isOf_start h)

/-! ## Single tokens -/

/-- The next token, or the error that stands in its place. -/
theorem steadyAt_peekAt (k : Nat) (h : v.Live ts) (hk : ts.length ≤ k → ∃ e, v.failure = some e) :
    SteadyAt v ts (peekAt (k + 1 : Nat)) (peekAt (k + 1 : Nat))
      fun t rest => rest = ts ∧ ts[k]? = some t := by
  cases ht : ts[k]? with
  | some t =>
    refine ⟨fun hp => ?_, fun hp hr => ?_, fun hp hr => ?_⟩
    all_goals obtain ⟨q, hq, hh, -⟩ := peekAt_eq_until hp ht
    · rw [hq, hq]
    · rw [hq] at hr
      cases hr
      exact ⟨ts, hh, rfl, rfl⟩
    · rw [hq] at hr
      cases hr
  | none =>
    have hlen := List.getElem?_eq_none_iff.1 ht
    obtain ⟨e, he⟩ := hk hlen
    refine ⟨fun hp => ?_, fun hp hr => ?_, fun hp hr => ?_⟩
    all_goals
      rw [he] at hp
      obtain ⟨q, hq⟩ := peekAt_error hp hlen
    · rw [hq, hq]
    · rw [hq] at hr
      cases hr
    · rw [hq] at hr
      cases hr
      exact h.failure _ he

theorem steadyAt_peek (h : v.Live ts) :
    SteadyAt v ts peek peek fun t rest => rest = ts ∧ ts.head? = some t := by
  have hpeek := steadyAt_peekAt (v := v) 0 h fun hlen => by
    obtain rfl := List.eq_nil_of_length_eq_zero (Nat.le_zero.1 hlen)
    exact h.exists_failure
  exact hpeek.conseq fun t rest hrest => ⟨hrest.1, by rw [List.head?_eq_getElem?]; exact hrest.2⟩

theorem steadyAt_advance (h : v.Live ts) :
    SteadyAt v ts advance advance fun t rest => ts = t :: rest := by
  cases ts with
  | cons t rest =>
    refine ⟨fun hp => ?_, fun hp hr => ?_, fun hp hr => ?_⟩
    all_goals obtain ⟨q, hq, hh, -⟩ := advance_eq_until hp
    · rw [hq, hq]
    · rw [hq] at hr
      cases hr
      exact ⟨rest, hh, rfl⟩
    · rw [hq] at hr
      cases hr
  | nil =>
    obtain ⟨e, he⟩ := h.exists_failure
    refine ⟨fun hp => ?_, fun hp hr => ?_, fun hp hr => ?_⟩
    all_goals
      rw [he] at hp
      obtain ⟨q, hq⟩ := advance_error hp
    · rw [hq, hq]
    · rw [hq] at hr
      cases hr
    · rw [hq] at hr
      cases hr
      exact h.failure _ he

theorem mem_of_head? {t : Token} (h : ts.head? = some t) : t ∈ ts := List.mem_of_mem_head? h

theorem steadyAt_expect (h : v.Live ts) (k : Token.Kind) :
    SteadyAt v ts (expect k) (expect k) fun t rest => ts = t :: rest ∧ t.kind = k := by
  refine (steadyAt_peek h).bind ?_
  rintro t rest ⟨rfl, ht⟩
  split
  · refine (steadyAt_advance h).conseq ?_
    rintro u rest rfl
    cases ht
    exact ⟨rfl, ‹_›⟩
  · exact steadyAt_failAt (h.within t (mem_of_head? ht))

theorem steadyAt_expectWord (h : v.Live ts) (w : Text) :
    SteadyAt v ts (expectWord w) (expectWord w) fun t rest => ts = t :: rest ∧ t.isWord w := by
  refine (steadyAt_peek h).bind ?_
  rintro t rest ⟨rfl, ht⟩
  split
  · refine (steadyAt_advance h).conseq ?_
    rintro u rest rfl
    cases ht
    exact ⟨rfl, ‹_›⟩
  · exact steadyAt_failAt (h.within t (mem_of_head? ht))

/-- Either the next token is taken, or all stays as it is. -/
theorem steadyAt_skip (h : v.Live ts) (k : Token.Kind) :
    SteadyAt v ts (skip k) (skip k) fun b rest =>
      if b then ∃ t, ts = t :: rest ∧ t.kind = k else rest = ts := by
  refine (steadyAt_peek h).bind ?_
  rintro t rest ⟨rfl, ht⟩
  split
  · refine (steadyAt_advance h).bind ?_
    rintro u rest rfl
    cases ht
    exact steadyAt_pure ⟨_, rfl, ‹_›⟩
  · exact steadyAt_pure rfl

/-! ## Rules -/

/-- Wherever fewer than `N` tokens are ahead, the rules do the same in the two documents and take at
least `n` tokens, but not the one for the end of the text. -/
def Steady (v : Views) (N n : Nat) (r r' : Parse α) : Prop :=
  ∀ ts, v.Live ts → ts.length < N →
    SteadyAt v ts r r' fun _ rest => v.Live rest ∧ rest.length + n ≤ ts.length

/-- Rules that are steady where a given token is next. -/
def SteadyAhead (v : Views) (N n : Nat) (t : Token) (r r' : Parse α) : Prop :=
  ∀ ts, v.Live ts → ts.length < N → ts.head? = some t →
    SteadyAt v ts r r' fun _ rest => v.Live rest ∧ rest.length + n ≤ ts.length

variable {M N m n : Nat}

theorem Steady.mono (h : Steady v N n r r') (hn : m ≤ n) : Steady v N m r r' :=
  fun ts hts hN => (h ts hts hN).conseq fun _ _ ⟨hrest, hl⟩ => ⟨hrest, by omega⟩

theorem Steady.below (h : Steady v N n r r') (hM : M ≤ N) : Steady v M n r r' :=
  fun ts hts hN => h ts hts (Nat.lt_of_lt_of_le hN hM)

theorem Steady.ahead (h : Steady v N n r r') (t : Token) : SteadyAhead v N n t r r' :=
  fun ts hts hN _ => h ts hts hN

theorem SteadyAhead.mono {t : Token} (h : SteadyAhead v N n t r r') (hn : m ≤ n) :
    SteadyAhead v N m t r r' :=
  fun ts hts hN ht => (h ts hts hN ht).conseq fun _ _ ⟨hrest, hl⟩ => ⟨hrest, by omega⟩

/-- One rule after the other. -/
theorem Steady.bind {f f' : α → Parse β} (hr : Steady v N m r r')
    (hf : ∀ a, Steady v N n (f a) (f' a)) : Steady v N (m + n) (r >>= f) (r' >>= f') :=
  fun ts hts hN => (hr ts hts hN).bind fun a rest ⟨hrest, hl⟩ =>
    (hf a rest hrest (by omega)).conseq fun _ _ ⟨h, hl'⟩ => ⟨h, by omega⟩

/-- After a rule that takes a token fewer of them are ahead. -/
theorem Steady.bind_less {f f' : α → Parse β} (hr : Steady v (N + 1) 1 r r')
    (hf : ∀ a, Steady v N n (f a) (f' a)) : Steady v (N + 1) (n + 1) (r >>= f) (r' >>= f') :=
  fun ts hts hN => (hr ts hts hN).bind fun a rest ⟨hrest, hl⟩ =>
    (hf a rest hrest (by omega)).conseq fun _ _ ⟨h, hl'⟩ => ⟨h, by omega⟩

/-- Nothing need be taken. -/
theorem Steady.then {f f' : α → Parse β} (hr : Steady v N n r r')
    (hf : ∀ a, Steady v N 0 (f a) (f' a)) : Steady v N 0 (r >>= f) (r' >>= f') :=
  (hr.mono (Nat.zero_le n)).bind hf

/-- The first rule takes what is to be taken. -/
theorem Steady.takes {f f' : α → Parse β} (hr : Steady v N n r r')
    (hf : ∀ a, Steady v N 0 (f a) (f' a)) : Steady v N n (r >>= f) (r' >>= f') := hr.bind hf

/-- The second rule takes what is to be taken. -/
theorem Steady.before {f f' : α → Parse β} (hr : Steady v N 0 r r')
    (hf : ∀ a, Steady v N n (f a) (f' a)) : Steady v N n (r >>= f) (r' >>= f') :=
  (hr.bind hf).mono (Nat.le_add_left n 0)

/-- The first rule takes what is to be taken. -/
theorem SteadyAhead.takes {t : Token} {f f' : α → Parse β} (hr : SteadyAhead v N n t r r')
    (hf : ∀ a, Steady v N 0 (f a) (f' a)) : SteadyAhead v N n t (r >>= f) (r' >>= f') :=
  fun ts hts hN ht => (hr ts hts hN ht).bind fun a rest ⟨hrest, hl⟩ =>
    (hf a rest hrest (by omega)).conseq fun _ _ ⟨h, hl'⟩ => ⟨h, by omega⟩

theorem steady_pure (a : α) : Steady v N 0 (pure a) (pure a) :=
  fun _ hts _ => steadyAt_pure ⟨hts, Nat.le_refl _⟩

theorem steady_peek : Steady v N 0 peek peek := by
  intro ts hts _
  refine (steadyAt_peek hts).conseq ?_
  rintro t rest ⟨rfl, -⟩
  exact ⟨hts, Nat.le_refl _⟩

/-- A rule that looks at the next token first. -/
theorem steady_peek_bind {f f' : Token → Parse β} (hf : ∀ t, SteadyAhead v N n t (f t) (f' t)) :
    Steady v N n (peek >>= f) (peek >>= f') := by
  intro ts hts hN
  refine (steadyAt_peek hts).bind ?_
  rintro t rest ⟨rfl, ht⟩
  exact hf t _ hts hN ht

/-- A rule that may fail at the token that was next at its start. -/
theorem steady_start_bind {f f' : Token → Parse β}
    (hf : ∀ t, t.start ≤ v.first.source.length → Steady v N n (f t) (f' t)) :
    Steady v N n (peek >>= f) (peek >>= f') :=
  steady_peek_bind fun t ts hts hN ht => hf t (hts.within t (mem_of_head? ht)) ts hts hN

theorem steady_failAt {t : Token} {cause : SyntaxError.Cause}
    (h : t.start ≤ v.first.source.length) :
    Steady v N n (failAt t cause : Parse α) (failAt t cause) := fun _ _ _ => steadyAt_failAt h

theorem steadyAhead_advance {t : Token} (ht : t.kind ≠ .finish) :
    SteadyAhead v N 1 t advance advance := by
  intro ts hts hN hhead
  refine (steadyAt_advance hts).conseq ?_
  rintro u rest rfl
  cases hhead
  exact ⟨hts.tail ht, Nat.le_refl _⟩

theorem steadyAhead_failAt {t : Token} {cause : SyntaxError.Cause} :
    SteadyAhead v N n t (failAt t cause : Parse α) (failAt t cause) :=
  fun _ hts _ ht => steadyAt_failAt (hts.within t (mem_of_head? ht))

theorem steadyAhead_unexpected {t : Token} :
    SteadyAhead v N n t (unexpected t : Parse α) (unexpected t) :=
  steadyAhead_failAt

theorem steady_expect {k : Token.Kind} (hk : k ≠ .finish) : Steady v N 1 (expect k) (expect k) := by
  intro ts hts _
  refine (steadyAt_expect hts k).conseq ?_
  rintro t rest ⟨rfl, rfl⟩
  exact ⟨hts.tail hk, Nat.le_refl _⟩

/-- A rule that may fail at the token that it takes first. -/
theorem steady_expect_bind {k : Token.Kind} (hk : k ≠ .finish) {f f' : Token → Parse β}
    (hf : ∀ t, t.start ≤ v.first.source.length → Steady v N n (f t) (f' t)) :
    Steady v N (n + 1) (expect k >>= f) (expect k >>= f') := by
  intro ts hts hN
  refine (steadyAt_expect hts k).bind ?_
  rintro t rest ⟨rfl, rfl⟩
  rw [List.length_cons] at hN
  refine (hf t (hts.within t List.mem_cons_self) rest (hts.tail hk) (by omega)).conseq ?_
  rintro b after ⟨hafter, hl⟩
  exact ⟨hafter, by rw [List.length_cons]; omega⟩

theorem Token.kind_ne_finish {t : Token} {w : Text} (h : t.isWord w) : t.kind ≠ .finish := by
  simp only [Token.isWord, Bool.and_eq_true, decide_eq_true_eq] at h
  rw [h.1]
  decide

theorem steady_expectWord (w : Text) : Steady v N 1 (expectWord w) (expectWord w) := by
  intro ts hts _
  refine (steadyAt_expectWord hts w).conseq ?_
  rintro t rest ⟨rfl, ht⟩
  exact ⟨hts.tail (Token.kind_ne_finish ht), Nat.le_refl _⟩

/-- A rule that depends on whether the next token is taken. -/
theorem steady_skip_bind {k : Token.Kind} (hk : k ≠ .finish) {f f' : Bool → Parse β}
    (hyes : Steady v N n (f true) (f' true)) (hno : Steady v (N + 1) (n + 1) (f false) (f' false)) :
    Steady v (N + 1) (n + 1) (skip k >>= f) (skip k >>= f') := by
  intro ts hts hN
  refine (steadyAt_skip hts k).bind ?_
  intro b rest hb
  cases b with
  | true =>
    obtain ⟨t, rfl, rfl⟩ := hb
    rw [List.length_cons] at hN
    refine (hyes rest (hts.tail hk) (by omega)).conseq fun _ _ ⟨h, hl⟩ => ⟨h, ?_⟩
    rw [List.length_cons]
    omega
  | false =>
    obtain rfl : rest = ts := hb
    exact hno rest hts hN

theorem steady_skip {k : Token.Kind} (hk : k ≠ .finish) : Steady v N 0 (skip k) (skip k) := by
  intro ts hts _
  refine (steadyAt_skip hts k).conseq ?_
  intro b rest hb
  cases b with
  | true =>
    obtain ⟨t, rfl, rfl⟩ := hb
    exact ⟨hts.tail hk, Nat.le_succ _⟩
  | false =>
    obtain rfl : rest = ts := hb
    exact ⟨hts, Nat.le_refl _⟩

theorem steady_ahead (k : Token.Kind) : Steady v N 0 (ahead k) (ahead k) :=
  steady_peek.then fun _ => steady_pure _

theorem steadyAt_node {start : Token} {kind : Kind} {slots : List Slot} :
    SteadyAt v ts (node start kind slots) (node start kind slots) fun _ rest => rest = ts where
  same _ := rfl
  ok hp hr := by
    cases hr
    exact ⟨ts, hp, rfl⟩
  error _ hr := by cases hr

theorem steady_node (start : Token) (kind : Kind) (slots : List Slot) :
    Steady v N 0 (node start kind slots) (node start kind slots) := by
  intro ts hts _
  refine steadyAt_node.conseq ?_
  rintro n rest rfl
  exact ⟨hts, Nat.le_refl _⟩

/-! ## Loops -/

/-- A loop that ends when `stop` says so, which leaves tokens of which `S` holds then. Every item
takes a token, so that the tokens that are ahead bound the number of the items. -/
theorem steadyAt_itemsUntil {S : List Token → List Token → Prop} {stop : Parse Bool}
    {item item' : Parse α} (hS : ∀ {ts mid rest}, mid.length ≤ ts.length → S mid rest → S ts rest)
    (hs : ∀ ts, v.Live ts → SteadyAt v ts stop stop fun b rest =>
      if b then S ts rest else v.Live rest ∧ rest.length ≤ ts.length)
    (hi : Steady v N 1 item item') {fuel fuel' : Nat} (hN : N ≤ fuel) (hN' : N ≤ fuel')
    (hts : v.Live ts) (hlt : ts.length < N) :
    SteadyAt v ts (itemsUntil stop item fuel) (itemsUntil stop item' fuel') fun _ => S ts := by
  -- The induction is on the bound of the tokens ahead: they run out before the fuel of either loop.
  induction N generalizing fuel fuel' ts with
  | zero => exact absurd hlt (Nat.not_lt_zero _)
  | succ N ih =>
    obtain ⟨fuel, rfl⟩ := Nat.exists_eq_add_one_of_ne_zero (by omega : fuel ≠ 0)
    obtain ⟨fuel', rfl⟩ := Nat.exists_eq_add_one_of_ne_zero (by omega : fuel' ≠ 0)
    refine (hs ts hts).bind fun b rest hb => ?_
    cases b with
    | true => exact steadyAt_pure hb
    | false =>
      obtain ⟨hrest, hle⟩ := hb
      refine (hi rest hrest (by omega)).bind ?_
      rintro a mid ⟨hmid, hl⟩
      refine (ih (hi.below (Nat.le_succ N)) (Nat.le_of_succ_le_succ hN)
        (Nat.le_of_succ_le_succ hN') hmid (by omega)).bind fun as last hlast => ?_
      exact steadyAt_pure (hS (by omega) hlast)

/-- A rule that depends on the room of its document. -/
theorem SteadyAt.read_bind {f f' : Parser.Document → Parse α}
    (h : SteadyAt v ts (f v.first) (f' v.second) Q) :
    SteadyAt v ts (read >>= f) (read >>= f') Q where
  same hp := h.same hp
  ok hp hr := h.ok hp hr
  error hp hr := h.error hp hr

theorem Steady.read_bind {f f' : Parser.Document → Parse α}
    (h : Steady v N n (f v.first) (f' v.second)) : Steady v N n (read >>= f) (read >>= f') :=
  fun ts hts hN => (h ts hts hN).read_bind

theorem room_le : v.room ≤ v.first.budget ∧ v.room ≤ v.second.budget :=
  ⟨Nat.min_le_left _ _, Nat.min_le_right _ _⟩

section Lists

variable {stop : Parse Bool} {item item' : Parse α} {o c : Token.Kind}

theorem steady_allUntil (hs : ∀ M, Steady v M 0 stop stop) (hi : Steady v N 1 item item')
    (hN : N ≤ v.room) : Steady v N 0 (allUntil stop item) (allUntil stop item') := by
  refine Steady.read_bind fun ts hts hlt => ?_
  refine steadyAt_itemsUntil (S := fun ts rest => v.Live rest ∧ rest.length + 0 ≤ ts.length) ?_ ?_
    hi (Nat.le_trans hN room_le.1) (Nat.le_trans hN room_le.2) hts hlt
  · exact fun hle ⟨hrest, hl⟩ => ⟨hrest, Nat.le_trans hl hle⟩
  · intro ts hts
    refine (hs _ ts hts (Nat.lt_succ_self _)).conseq fun b rest hrest => ?_
    split <;> exact hrest

theorem steady_someUntil (hs : ∀ M, Steady v M 0 stop stop) (hi : Steady v N 1 item item')
    (hN : N ≤ v.room) : Steady v N 1 (someUntil stop item) (someUntil stop item') :=
  hi.takes fun _ => (steady_allUntil hs hi hN).then fun _ => steady_pure _

theorem steady_many (ho : o ≠ .finish) (hc : c ≠ .finish) (hi : Steady v N 1 item item')
    (hN : N ≤ v.room) : Steady v N 1 (many o item c) (many o item' c) :=
  (steady_expect ho).takes fun _ =>
    (steady_someUntil (fun _ => steady_skip hc) hi hN).mono (Nat.zero_le _)

/-- Behind the opening token fewer tokens are ahead. -/
theorem steady_any (ho : o ≠ .finish) (hc : c ≠ .finish) (hi : Steady v N 1 item item')
    (hN : N ≤ v.room) : Steady v (N + 1) 1 (any o item c) (any o item' c) :=
  (steady_expect ho).bind_less fun _ => steady_allUntil (fun _ => steady_skip hc) hi hN

theorem steady_delimited (hc : c ≠ .finish) (hi : Steady v N 1 item item') (hN : N ≤ v.room) :
    Steady v N 1 (delimited c item) (delimited c item') :=
  (steady_skip hc).before fun _ =>
    steady_someUntil (fun _ => (steady_skip hc).then fun _ => steady_pure _) hi hN

theorem steady_optionalMany (ho : o ≠ .finish) (hc : c ≠ .finish) (hi : Steady v N 1 item item')
    (hN : N ≤ v.room) : Steady v N 0 (optionalMany o item c) (optionalMany o item' c) := by
  refine (steady_ahead o).then fun b => ?_
  split
  · exact (steady_many ho hc hi hN).mono (Nat.zero_le _)
  · exact steady_pure _

theorem steady_mapM {xs : List β} {f f' : β → Parse α} (h : ∀ x, Steady v N 0 (f x) (f' x)) :
    Steady v N 0 (xs.mapM f) (xs.mapM f') := by
  induction xs with
  | nil =>
    rw [List.mapM_nil, List.mapM_nil]
    exact steady_pure _
  | cons x xs ih =>
    rw [List.mapM_cons, List.mapM_cons]
    exact (h x).then fun _ => ih.then fun _ => steady_pure _

end Lists


end Parse

end GraphSchema
