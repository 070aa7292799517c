import GraphSchema.Proofs.Token.Numeral

/-!
# Numbers as tokens

A number is the next token of a lexer that stands before one. The grammar that is read differs in
two points from the one of the language: digits of all scripts are read, and an exponent may not
start with zero unless it is zero.

## Main statements

* `Scan.token_eq_number`, `Scan.sorts_token`: which tokens are numbers.
* `Lexer.Before.returns_number_iff`: which numbers of the language are returned.
* `Lexer.Before.error_of_leadingZero`: what becomes of an exponent with a leading zero.
* `Lexer.Reached.exists_number`: which numbers are returned.
* `Lexer.Reached.numbers`: both together.
-/

namespace GraphSchema

namespace Scan

open CodePoint (isDigit isAsciiDigit)

variable {digit : CodePoint → Bool} {t : Text} {i : Nat}

/-! ## Tokens -/

/-- What a number starts with starts no other token. -/
theorem token_eq_number {c : CodePoint} (hc : c = '-' ∨ c.isDigit) :
    token c ⟨i, c :: t⟩ = number ⟨i, c :: t⟩ := by
  have hvisible : isVisible c := by
    have hcontrol : ∀ n : Fin 0x20, ¬isDigit ⟨n, by omega⟩ := by decide +kernel
    rcases hc with rfl | hc
    · decide
    · have : 0x20 ≤ c.val := Nat.le_of_not_lt fun h => hcontrol ⟨c.val, h⟩ hc
      simp [isVisible, this]
  have hsymbol : Token.Kind.ofSymbol? c = none := by
    have hsymbols : ∀ k ∈ Token.Kind.symbols, ∀ s ∈ k.spelling?, ∀ d ∈ s,
        ¬(d = '-' ∨ d.isDigit) := by decide
    refine List.find?_eq_none.2 fun k hk hspelling => ?_
    exact hsymbols k hk [c] (of_decide_eq_true hspelling) c List.mem_cons_self hc
  have hdot : c ≠ '.' := by
    rintro rfl
    exact absurd hc (by decide)
  have hquote : c ≠ '"' := by
    rintro rfl
    exact absurd hc (by decide)
  have hopen : ¬tripleQuote.isPrefixOf (c :: t) := by
    rw [isPrefixOf_tripleQuote]
    rintro ⟨u, hu⟩
    exact hquote (List.cons.inj hu).1
  unfold token
  rw [if_pos hvisible, hsymbol]
  change (if c = '.' then _ else ahead tripleQuote >>= fun b => _ : Scan Token) _ = _
  rw [if_neg hdot]
  change (if tripleQuote.isPrefixOf (c :: t) then _ else _ : Scan Token) _ = _
  rw [if_neg hopen, if_neg hquote, if_pos hc]

/-- A reading that gives a token of kind `k`. -/
def OfKind (k : Token.Kind) (x : Scan Token) : Prop := ∀ p a q, x p = .ok a q → a.kind = k

theorem OfKind.bind {α : Type} {k : Token.Kind} {x : Scan α} {f : α → Scan Token}
    (h : ∀ a, OfKind k (f a)) : OfKind k (x >>= f) := by
  intro p a q hx
  obtain ⟨b, r, -, hf⟩ := bind_eq_ok.1 hx
  exact h b r a q hf

theorem ofKind_tokenSince {k : Token.Kind} {start : Place} {value : Text} :
    OfKind k (tokenSince start k value) := by
  rintro p a q ⟨⟩
  rfl

theorem kind_number {p q : Place} {a : Token} (h : number p = .ok a q) :
    a.kind = .integer ∨ a.kind = .float := by
  obtain ⟨n, -, -, -, -, -, rfl⟩ := number_eq_ok_iff.1 h
  change n.kind = _ ∨ n.kind = _
  unfold NumberLiteral.kind
  split
  · exact .inr rfl
  · exact .inl rfl

theorem ofKind_name : OfKind .name name :=
  .bind fun _ => .bind fun _ => .bind fun _ => ofKind_tokenSince

/-- The kinds of the tokens that are neither numbers nor names. -/
def otherKinds : List Token.Kind :=
  .ellipsis :: .blockString :: .string :: Token.Kind.symbols

/-- A reading that gives a number, a name if `c` starts one, or a token of another kind. -/
def Sorts (c : CodePoint) (x : Scan Token) : Prop :=
  ∀ p a q, x p = .ok a q →
    number p = .ok a q ∨ startsName c ∧ name p = .ok a q ∨ a.kind ∈ otherKinds

theorem OfKind.sorts {c : CodePoint} {k : Token.Kind} {x : Scan Token} (h : OfKind k x)
    (hk : k ∈ otherKinds) : Sorts c x := fun p a q hx => .inr (.inr (h p a q hx ▸ hk))

theorem sorts_fail {c : CodePoint} {cause : SyntaxError.Cause} {back : Nat} :
    Sorts c (fail cause back) := by
  rintro p a q ⟨⟩

/-- Only numbers are integers or floats, and only names are names. -/
theorem sorts_token (c : CodePoint) : Sorts c (token c) := by
  unfold token
  split
  · split
    · refine OfKind.sorts (.bind fun _ => .bind fun _ => ofKind_tokenSince) ?_
      simp [otherKinds, List.mem_of_find?_eq_some ‹_›]
    split
    · exact OfKind.sorts (.bind fun _ => .bind fun _ => ofKind_tokenSince) (by decide)
    have hquoted (b : Bool) : Sorts c (if b then blockString else
        if c = '"' then string else if c = '-' ∨ c.isDigit then number
        else if startsName c then name else fail (.unexpectedCharacter c) 0) := by
      split
      · exact OfKind.sorts (.bind fun _ => .bind fun _ => .bind fun _ => .bind fun _ =>
          ofKind_tokenSince) (by decide)
      split
      · exact OfKind.sorts (.bind fun _ => .bind fun _ => .bind fun _ => .bind fun _ =>
          ofKind_tokenSince) (by decide)
      split
      · exact fun p a q h => .inl h
      split
      · exact fun p a q h => .inr (.inl ⟨‹_›, h⟩)
      · exact sorts_fail
    exact fun p a q h => hquoted _ p a q h
  · rintro p a q ⟨⟩

/-! ## The text of a number -/

/-- Digits either do not start with zero, are a zero, or have one in front. -/
theorem IsRun.isWhole_or {ds : Text} (h : IsRun digit ds) :
    IsWhole digit ds ∨ ∃ d ds', ds = CodePoint.ofChar '0' :: d :: ds' := by
  obtain ⟨c, ds, rfl⟩ := List.exists_cons_of_ne_nil h.ne_nil
  cases ds with
  | nil =>
    refine .inl ⟨h, fun hzero => ?_⟩
    rw [Option.some.inj hzero]
  | cons d ds =>
    by_cases hc : c = '0'
    · exact .inr ⟨d, ds, by rw [hc]⟩
    · exact .inl ⟨h, fun hzero => absurd (Option.some.inj hzero) hc⟩

namespace NumberLiteral

variable {n : NumberLiteral} {power : Text → Prop}

/-- A number starts with a minus sign or a digit. -/
theorem Fits.exists_cons (h : n.Fits digit power) (r : Text) :
    ∃ c t, n.text ++ r = c :: t ∧ (c = '-' ∨ digit c) := by
  obtain ⟨negative, whole, fraction, exponent⟩ := n
  cases negative with
  | true => exact ⟨'-', _, rfl, .inl rfl⟩
  | false =>
    obtain ⟨c, ds, rfl⟩ := List.exists_cons_of_ne_nil h.whole.ne_nil
    exact ⟨c, _, rfl, .inr (h.whole.all c List.mem_cons_self)⟩

theorem value_placed (n : NumberLiteral) {j : Nat} {v : Text} :
    (Token.placed n.kind i j v).value = v := by
  unfold kind
  split <;> rfl

/-- What a number is made of: its digits, a sign, a dot and an exponent. -/
theorem mem_text {c : CodePoint} : c ∈ n.text ↔ n.negative ∧ c = '-' ∨ c ∈ n.whole ∨
    (∃ ds ∈ n.fraction, c = '.' ∨ c ∈ ds) ∨ ∃ e ∈ n.exponent, c ∈ e.text := by
  obtain ⟨negative, whole, fraction, exponent⟩ := n
  cases negative <;> cases fraction <;> cases exponent <;>
    simp [text, mantissa, signText, fractionText, exponentText, or_assoc]

/-- What is read as a number is one of the language if all its digits are ASCII digits. -/
theorem IsRead.conforms (h : n.IsRead) (hd : ∀ c ∈ n.text, c.isDigit → c.isAsciiDigit) :
    n.Conforms where
  whole := h.whole.mono fun c hc => hd c (mem_text.2 (.inr (.inl hc)))
  fraction ds hds := (h.fraction ds hds).mono fun c hc =>
    hd c (mem_text.2 (.inr (.inr (.inl ⟨ds, hds, .inr hc⟩))))
  exponent e he := by
    refine ⟨(h.exponent e he).mark, (h.exponent e he).sign, ?_⟩
    refine (h.exponent e he).digits.toIsRun.mono fun c hc => hd c ?_
    exact mem_text.2 (.inr (.inr (.inr ⟨e, he, by simp [ExponentPart.text, hc]⟩)))

/-- The digits of a number of the language are ASCII digits. -/
theorem Conforms.isAsciiDigit (h : n.Conforms) : ∀ c ∈ n.text, c.isDigit → c.isAsciiDigit := by
  intro c hc hdigit
  rcases mem_text.1 hc with ⟨-, rfl⟩ | hc | ⟨ds, hds, rfl | hc⟩ | ⟨e, he, hc⟩
  · exact absurd hdigit (by decide)
  · exact h.whole.all c hc
  · exact absurd hdigit (by decide)
  · exact (h.fraction ds hds).all c hc
  · have he := h.exponent e he
    rcases List.mem_cons.1 hc with rfl | hc
    · rcases he.mark with hmark | hmark <;> rw [hmark] at hdigit <;> exact absurd hdigit (by decide)
    rcases List.mem_append.1 hc with hc | hc
    · rcases he.sign c (Option.mem_toList.1 hc) with rfl | rfl <;> exact absurd hdigit (by decide)
    · exact he.digits.all c hc

end NumberLiteral

end Scan

namespace Lexer

open Scan

variable {source : Text} {l : Lexer}

/-- Before a number the lexer reads one. -/
theorem Before.returns_iff_number {i stop : Nat} {t value : Text} {kind : Token.Kind}
    (h : l.Before source i) (hnumber : ∃ c u, t = c :: u ∧ (c = '-' ∨ c.isDigit))
    (ht : source.drop i = t) : l.Returns kind i stop value ↔ ∃ (n : NumberLiteral) (r : Text),
      t = n.text ++ r ∧ n.IsRead ∧ n.Ends r ∧ n.kind = kind ∧ i + n.text.length = stop ∧
        n.text = value := by
  obtain ⟨c, u, rfl, hc⟩ := hnumber
  rw [h.returns_iff ht, token_eq_number hc]
  constructor
  · rintro ⟨token, q, hread, rfl, -, rfl, rfl⟩
    obtain ⟨n, r, htext, -, hn, hends, rfl⟩ := number_eq_ok_iff.1 hread
    exact ⟨n, r, htext, hn, hends, rfl, rfl, n.value_placed.symm⟩
  · rintro ⟨n, r, htext, hn, hends, rfl, rfl, rfl⟩
    exact ⟨_, _, number_eq_ok_iff.2 ⟨n, r, htext, rfl, hn, hends, rfl⟩, rfl, rfl, rfl,
      n.value_placed⟩

/-- A lexer refuses the digit behind a zero that starts an exponent. -/
theorem Before.error_of_leadingZero {i : Nat} {n : NumberLiteral} {r : Text}
    (h : l.Before source i) (hahead : source.drop i = n.text ++ r) (hn : n.Conforms)
    {e : ExponentPart} (he : n.exponent = some e) {d : CodePoint} {ds : Text}
    (hz : e.digits = CodePoint.ofChar '0' :: d :: ds) : ∃ next, l.next =
      .error ⟨.unexpectedCharacter d, (i + n.text.length - (ds.length + 1) : Nat)⟩ next := by
  obtain ⟨c, t, hct, hc⟩ := hn.exists_cons r
  obtain ⟨q, hread⟩ := number_leadingZero (i := i) (r := r) hn he hz
  rw [hct, ← token_eq_number (hc.imp_right isDigit_of_isAsciiDigit)] at hread
  rcases h.next (hahead.trans hct) with ⟨token, q, _, _, hok, -⟩ | ⟨e, q, herror, hnext⟩
  · rw [hread] at hok
    cases hok
  · rw [hread] at herror
    cases herror
    exact ⟨_, hnext⟩

/-- A number of the language is the next token of a lexer that stands before it, unless its exponent
has a leading zero or a digit of another script follows. -/
theorem Before.returns_number_iff {i : Nat} {n : NumberLiteral} {r : Text} (h : l.Before source i)
    (hahead : source.drop i = n.text ++ r) (hn : n.Conforms)
    (hr : ∀ c ∈ r.head?, ¬(c.isAsciiDigit ∨ c = '.' ∨ startsName c)) :
    l.Returns n.kind i (i + n.text.length) n.text ↔
      (∀ e ∈ n.exponent, IsWhole CodePoint.isAsciiDigit e.digits) ∧ ∀ c ∈ r.head?, ¬c.isDigit := by
  obtain ⟨c, t, hct, hc⟩ := hn.exists_cons r
  have hreturns : l.Returns n.kind i (i + n.text.length) n.text ↔ _ :=
    h.returns_iff_number ⟨c, t, hct, hc.imp_right isDigit_of_isAsciiDigit⟩ hahead
  constructor
  · intro hret
    obtain ⟨m, r', htext, -, hends, -, -, hm⟩ := hreturns.1 hret
    rw [hm] at htext
    obtain rfl : r = r' := List.append_cancel_left htext
    refine ⟨fun e he => ?_, hends.digit⟩
    rcases (hn.exponent e he).digits.isWhole_or with hwhole | ⟨d, ds, hz⟩
    · exact hwhole
    · obtain ⟨next, herror⟩ := h.error_of_leadingZero hahead hn he hz
      obtain ⟨token, next', hok, -⟩ := hret
      rw [hok] at herror
      cases herror
  · rintro ⟨he, hdigit⟩
    exact hreturns.2 ⟨n, r, rfl, hn.isRead he, ⟨hdigit, fun c hc h => hr c hc (.inr (.inr h)),
      fun _ c hc h => hr c hc (.inr (.inl h))⟩, rfl, rfl, rfl⟩

/-- The text of an integer or a float. -/
theorem Reached.exists_number (hl : Reached source l) {token : Token} {next : Lexer}
    (h : l.next = .ok (some token) next) (hkind : token.kind = .integer ∨ token.kind = .float) :
    ∃ n : NumberLiteral, n.IsRead ∧ n.text = token.value ∧ n.kind = token.kind := by
  have hinner : token.kind ≠ .start ∧ token.kind ≠ .finish := by
    rcases hkind with hk | hk <;> rw [hk] <;> decide
  obtain ⟨hbefore, c, t, ht⟩ := hl.before_of_next h hinner
  rcases hbefore.next ht with ⟨token', q, comments, ignored, hread, hnext⟩ | ⟨e, q, -, hnext⟩
  · rw [hnext] at h
    cases h
    rcases sorts_token c _ _ _ hread with hnumber | ⟨-, hname⟩ | hother
    · obtain ⟨n, r, -, -, hn, -, ha⟩ := number_eq_ok_iff.1 hnumber
      have hvalue : token'.value = n.text := (congrArg Token.value ha).trans n.value_placed
      have hkind : token'.kind = n.kind := congrArg Token.kind ha
      exact ⟨n, hn, hvalue.symm, hkind.symm⟩
    · have hk : token'.kind = .name := ofKind_name _ _ _ hname
      exact absurd hkind (by simp [hk])
    · rcases hkind with hk | hk <;> rw [show token'.kind = _ from hk] at hother <;>
        exact absurd hother (by decide)
  · rw [hnext] at h
    cases h

/-- The numbers of the language are returned as tokens, but for those with a zero in front of the
other digits of an exponent, which are refused, and those with a digit of another script behind
them. What follows them in this way ends the longest number at the place. The integers and floats
that are returned are numbers of the language, but for those with digits of other scripts. -/
theorem Reached.numbers (hl : Reached source l) :
    (∀ (i : Nat) (n : NumberLiteral) (r : Text), l.Before source i → source.drop i = n.text ++ r →
      n.Conforms → (∀ c ∈ r.head?, ¬(c.isAsciiDigit ∨ c = '.' ∨ startsName c)) →
      (l.Returns n.kind i (i + n.text.length) n.text ↔
        (∀ e ∈ n.exponent, IsWhole CodePoint.isAsciiDigit e.digits) ∧
          ∀ c ∈ r.head?, ¬c.isDigit) ∧
      ∀ e ∈ n.exponent, ∀ d ds, e.digits = CodePoint.ofChar '0' :: d :: ds →
        ∃ next, l.next =
          .error ⟨.unexpectedCharacter d, (i + n.text.length - (ds.length + 1) : Nat)⟩ next) ∧
    ∀ token next, l.next = .ok (some token) next → token.kind = .integer ∨ token.kind = .float →
      ((∃ n : NumberLiteral, n.Conforms ∧ n.text = token.value ∧ n.kind = token.kind) ↔
        ∀ c ∈ token.value, c.isDigit → c.isAsciiDigit) := by
  constructor
  · intro i n r h hahead hn hr
    exact ⟨h.returns_number_iff hahead hn hr,
      fun e he d ds hz => h.error_of_leadingZero hahead hn he hz⟩
  · intro token next h hkind
    constructor
    · rintro ⟨n, hn, hvalue, -⟩
      exact hvalue ▸ hn.isAsciiDigit
    · intro hdigits
      obtain ⟨n, hn, hvalue, hk⟩ := hl.exists_number h hkind
      exact ⟨n, hn.conforms (hvalue ▸ hdigits), hvalue, hk⟩

/-- A float whose exponent is written with two digits, the first one zero. -/
theorem numbers_leadingZero : Reached "1e05" ⟨⟨0, "1e05"⟩, true, false⟩ ∧
    ¬Returns ⟨⟨0, "1e05"⟩, true, false⟩ .float 0 4 "1e05" := by
  have hbefore : Before "1e05" 0 ⟨⟨0, "1e05"⟩, true, false⟩ :=
    before_first (c := '1') (t := "e05") (by decide)
  refine ⟨hbefore.reached, fun hreturns => ?_⟩
  have hn : NumberLiteral.Conforms ⟨false, "1", none, some ⟨'e', none, "05"⟩⟩ := by
    refine ⟨⟨⟨by decide, by decide⟩, by decide⟩, by simp, ?_⟩
    rintro _ ⟨⟩
    exact ⟨.inl rfl, by simp, by decide, by decide⟩
  have hwhole := ((hbefore.reached.numbers.1 0 _ [] hbefore rfl hn (by simp)).1.1 hreturns).1
  exact absurd ((hwhole _ rfl).zero rfl) (by decide)

end Lexer

end GraphSchema
