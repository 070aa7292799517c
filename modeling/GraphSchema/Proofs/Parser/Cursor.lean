import GraphSchema.Parser.Basic
import GraphSchema.Proofs.Token.Delivery

/-!
# The tokens ahead of a parser

A parser holds the tokens in its window and those that its lexer still delivers. Looking ahead moves
tokens from the lexer to the window and so changes nothing about what is held; taking a token drops
the first one.

## Main definitions

* `Parser.Holds`: the tokens ahead.
* `Parser.HoldsUntil`: the tokens ahead, and the error behind them.

## Main statements

* `Parse.peekAt_eq`, `Parse.lt_length_of_peekAt`: looking ahead in terms of the tokens held.
* `Parse.advance_eq`, `Parse.ne_nil_of_advance`: taking a token in terms of the tokens held.
* `Parse.peekAt_error`, `Parse.advance_error`: both fail at the error behind the tokens held.
* `Parse.eq_of_peekAt_error`, `Parse.eq_of_advance_error`: without it they fail at the end only.
-/

namespace GraphSchema

/-- The tokens ahead: those in the window, and then those that the lexer gives. -/
def Parser.Holds (p : Parser) (ts : List Token) : Prop :=
  ∃ unread e, p.lexer.Gives unread e ∧ p.window ++ unread = ts

/-- The tokens ahead, and the error that stands behind them if there is one. -/
def Parser.HoldsUntil (p : Parser) (e : Option SyntaxError) (ts : List Token) : Prop :=
  ∃ unread, p.lexer.Gives unread e ∧ p.window ++ unread = ts

theorem Parser.holds_iff {p : Parser} {ts : List Token} : p.Holds ts ↔ ∃ e, p.HoldsUntil e ts :=
  exists_comm

/-- The tokens ahead are determined by the parser. -/
theorem Parser.HoldsUntil.unique {p : Parser} {ts us : List Token} {e f : Option SyntaxError}
    (ht : p.HoldsUntil e ts) (hu : p.HoldsUntil f us) : ts = us := by
  obtain ⟨unread, hg, rfl⟩ := ht
  obtain ⟨unread', hg', rfl⟩ := hu
  rw [(hg.unique hg').1]

namespace Parse

variable {α β : Type} {d : Parser.Document} {p : Parser} {ts : List Token}

theorem bind_ok {r : Parse α} {k : α → Parse β} {a : α} {q : Parser} (h : r d p = .ok a q) :
    (r >>= k) d p = k a d q := by
  change EStateM.bind (r d) (fun a => k a d) p = _
  simp only [EStateM.bind, h]

theorem lex_token {t : Token} {e : Option SyntaxError} (h : p.lexer.Gives (t :: ts) e) :
    ∃ lexer, (∀ d, lex d p = .ok (some t) { p with lexer }) ∧ lexer.Gives ts e := by
  cases h with
  | token h rest => exact ⟨_, fun d => by simp only [lex, h], rest⟩

theorem lex_error {e : SyntaxError} (h : p.lexer.Gives [] (some e)) :
    ∃ q, ∀ d, lex d p = .error e q := by
  cases h with
  | fail h => exact ⟨_, fun d => by simp only [lex, h]; rfl⟩

/-- A parser to whose window the next `n` tokens were appended. -/
structure Extends (p : Parser) (n : Nat) (unread : List Token) (e : Option SyntaxError)
    (q : Parser) : Prop where
  window : q.window = p.window ++ unread.take n
  gives : q.lexer.Gives (unread.drop n) e
  lastStop : q.lastStop = p.lastStop

theorem Extends.holdsUntil {n : Nat} {unread : List Token} {e : Option SyntaxError} {q : Parser}
    (h : Extends p n unread e q) : q.HoldsUntil e (p.window ++ unread) :=
  ⟨_, h.gives, by rw [h.window, List.append_assoc, List.take_append_drop]⟩

/-- As many tokens as there are can be appended to the window. -/
theorem extend_eq (n : Nat) {unread : List Token} {e : Option SyntaxError}
    (h : p.lexer.Gives unread e) (hn : n ≤ unread.length) :
    ∃ q, (∀ d, extend n d p = .ok () q) ∧ Extends p n unread e q := by
  induction n generalizing p unread with
  | zero => exact ⟨p, fun d => rfl, by simp, by simpa using h, rfl⟩
  | succ n ih =>
    cases unread with
    | nil => simp at hn
    | cons t rest =>
      obtain ⟨lexer, hl, hd⟩ := lex_token h
      obtain ⟨q, hq, hx⟩ :=
        ih (p := { p with lexer, window := p.window ++ [t] }) hd (by simpa using hn)
      refine ⟨q, fun d => ?_, by simpa using hx.window, by simpa using hx.gives, hx.lastStop⟩
      rw [extend, bind_ok (hl d)]
      exact hq d

/-- Asked for more tokens than there are in front of an error, the parser fails there. -/
theorem extend_error (n : Nat) {unread : List Token} {e : SyntaxError}
    (h : p.lexer.Gives unread (some e)) (hn : unread.length < n) :
    ∃ q, ∀ d, extend n d p = .error e q := by
  induction n generalizing p unread with
  | zero => simp at hn
  | succ n ih =>
    cases unread with
    | nil =>
      obtain ⟨q, hq⟩ := lex_error h
      refine ⟨q, fun d => ?_⟩
      rw [extend]
      exact bind_of_error (hq d)
    | cons t rest =>
      obtain ⟨lexer, hl, hd⟩ := lex_token h
      obtain ⟨q, hq⟩ :=
        ih (p := { p with lexer, window := p.window ++ [t] }) hd (by simpa using hn)
      refine ⟨q, fun d => ?_⟩
      rw [extend, bind_ok (hl d)]
      exact hq d

/-- Asked for more tokens than there are, the window gets those that there are, if this does not
fail. -/
theorem window_of_extend {n : Nat} {unread : List Token} {e : Option SyntaxError} {q : Parser}
    (h : p.lexer.Gives unread e) (hn : unread.length < n) (hq : extend n d p = .ok () q) :
    q.window = p.window ++ unread := by
  induction n generalizing p unread with
  | zero => simp at hn
  | succ n ih =>
    rw [extend] at hq
    obtain ⟨t, q', hl, hq⟩ := bind_eq_ok.1 hq
    cases h with
    | done h =>
      simp only [lex, h] at hl
      cases hl
      change (if p.window.isEmpty then failAtEnd else pure () : Parse Unit) d p = _ at hq
      split at hq
      · cases hq
      · cases hq
        simp
    | fail h =>
      simp only [lex, h] at hl
      cases hl
    | token h rest =>
      simp only [lex, h] at hl
      cases hl
      rw [ih rest (by simpa using hn) hq]
      simp

/-- Looking ahead, once the window has been extended. -/
theorem peekAt_of_extend {k : Nat} {q : Parser}
    (h : extend (k + 1 - p.window.length) d p = .ok () q) :
    peekAt (k + 1 : Nat) d p =
      match q.window[k]? with
      | some t => .ok t q
      | none => .error ⟨.unexpectedEnd, d.length⟩ q := by
  have hn : ((k + 1 : Nat) - (p.window.length : Int)).toNat = k + 1 - p.window.length := by omega
  change (extend ((k + 1 : Nat) - (p.window.length : Int)).toNat >>= _ : Parse Token) d p = _
  rw [hn, bind_ok h]
  change (match (if 0 < ((k + 1 : Nat) : Int) then q.window[((k + 1 : Nat) : Int).toNat - 1]?
    else _) with
    | some token => pure token
    | none => failAtEnd : Parse Token) d q = _
  rw [if_pos (by omega)]
  change (match q.window[k]? with
    | some token => pure token
    | none => failAtEnd : Parse Token) d q = _
  cases q.window[k]? with
  | some t => rfl
  | none => rfl

/-- Looking ahead extends the window first. -/
theorem exists_extend_of_peekAt {k : Nat} {t : Token} {q : Parser}
    (h : peekAt (k + 1 : Nat) d p = .ok t q) :
    ∃ q', extend (k + 1 - p.window.length) d p = .ok () q' := by
  have hn : ((k + 1 : Nat) - (p.window.length : Int)).toNat = k + 1 - p.window.length := by omega
  change (extend ((k + 1 : Nat) - (p.window.length : Int)).toNat >>= _ : Parse Token) d p = _ at h
  rw [hn] at h
  obtain ⟨u, q', hq, -⟩ := bind_eq_ok.1 h
  exact ⟨q', hq⟩

/-- The token `k` places after the next one. -/
theorem peekAt_eq_until {k : Nat} {t : Token} {e : Option SyntaxError} (h : p.HoldsUntil e ts)
    (hk : ts[k]? = some t) :
    ∃ q, (∀ d, peekAt (k + 1 : Nat) d p = .ok t q) ∧ q.HoldsUntil e ts ∧
      q.lastStop = p.lastStop := by
  obtain ⟨unread, hg, rfl⟩ := h
  have hlt : k < (p.window ++ unread).length := (List.getElem?_eq_some_iff.1 hk).1
  obtain ⟨q, hq, hx⟩ := extend_eq (k + 1 - p.window.length) hg
    (by rw [List.length_append] at hlt; omega)
  refine ⟨q, fun d => ?_, hx.holdsUntil, hx.lastStop⟩
  have hw : q.window[k]? = some t := by
    rw [hx.window]
    grind
  rw [peekAt_of_extend (hq d), hw]

theorem peekAt_eq {k : Nat} {t : Token} (h : p.Holds ts) (hk : ts[k]? = some t) :
    ∃ q, peekAt (k + 1 : Nat) d p = .ok t q ∧ q.Holds ts ∧ q.lastStop = p.lastStop := by
  obtain ⟨e, h⟩ := Parser.holds_iff.1 h
  obtain ⟨q, hq, hh, hlast⟩ := peekAt_eq_until h hk
  exact ⟨q, hq d, Parser.holds_iff.2 ⟨e, hh⟩, hlast⟩

/-- Looking behind the tokens in front of an error. -/
theorem peekAt_error {k : Nat} {e : SyntaxError} (h : p.HoldsUntil (some e) ts)
    (hk : ts.length ≤ k) : ∃ q, ∀ d, peekAt (k + 1 : Nat) d p = .error e q := by
  obtain ⟨unread, hg, rfl⟩ := h
  rw [List.length_append] at hk
  obtain ⟨q, hq⟩ := extend_error (k + 1 - p.window.length) hg (by omega)
  refine ⟨q, fun d => ?_⟩
  have hn : ((k + 1 : Nat) - (p.window.length : Int)).toNat = k + 1 - p.window.length := by omega
  change (extend ((k + 1 : Nat) - (p.window.length : Int)).toNat >>= _ : Parse Token) d p = _
  rw [hn]
  exact bind_of_error (hq d)

/-- Nothing is seen behind the last token. -/
theorem lt_length_of_peekAt {k : Nat} {t : Token} {q : Parser} (h : p.Holds ts)
    (hq : peekAt (k + 1 : Nat) d p = .ok t q) : k < ts.length := by
  obtain ⟨unread, e, hg, rfl⟩ := h
  refine Nat.lt_of_not_le fun hk => ?_
  rw [List.length_append] at hk
  obtain ⟨q', hx⟩ := exists_extend_of_peekAt hq
  have hw := window_of_extend hg (by omega) hx
  rw [peekAt_of_extend hx, hw, List.getElem?_eq_none (by rw [List.length_append]; omega)] at hq
  cases hq

/-- What `advance` does once the window is not empty, if it can be helped. -/
def takeFirst : Parse Token := do
  match (← get).window with
  | [] => failAtEnd
  | token :: rest => do
    modify fun p => { p with window := rest, lastStop := token.stop }
    return token

theorem takeFirst_eq {t : Token} {rest : List Token} (h : p.window = t :: rest) :
    takeFirst d p = .ok t { p with window := rest, lastStop := t.stop } := by
  change (match p.window with
    | [] => failAtEnd
    | token :: rest => do
      modify fun p => { p with window := rest, lastStop := token.stop }
      return token : Parse Token) d p = _
  rw [h]
  rfl

theorem takeFirst_of_nil (h : p.window = []) : takeFirst d p = failAtEnd d p := by
  change (match p.window with
    | [] => failAtEnd
    | token :: rest => do
      modify fun p => { p with window := rest, lastStop := token.stop }
      return token : Parse Token) d p = _
  rw [h]

theorem advance_eq_ite :
    advance d p =
      (if p.window.isEmpty then extend 1 >>= fun _ => takeFirst else takeFirst : Parse Token) d p :=
  rfl

/-- Taking the next token. -/
theorem advance_eq_until {t : Token} {e : Option SyntaxError} (h : p.HoldsUntil e (t :: ts)) :
    ∃ q, (∀ d, advance d p = .ok t q) ∧ q.HoldsUntil e ts ∧ q.lastStop = t.stop := by
  obtain ⟨unread, hg, hw⟩ := h
  cases hp : p.window with
  | cons u rest =>
    rw [hp] at hw
    cases hw
    refine ⟨{ p with window := rest, lastStop := t.stop }, fun d => ?_, ⟨unread, hg, rfl⟩, rfl⟩
    rw [advance_eq_ite, if_neg (by simp [hp]), takeFirst_eq hp]
  | nil =>
    rw [hp] at hw
    cases hw
    obtain ⟨q, hq, hx⟩ := extend_eq 1 hg (by simp)
    refine ⟨{ q with window := [], lastStop := t.stop }, fun d => ?_, ⟨_, hx.gives, rfl⟩, rfl⟩
    rw [advance_eq_ite, if_pos (by simp [hp]), bind_ok (hq d),
      takeFirst_eq (by rw [hx.window, hp]; rfl)]
    rfl

theorem advance_eq {t : Token} (h : p.Holds (t :: ts)) :
    ∃ q, advance d p = .ok t q ∧ q.Holds ts ∧ q.lastStop = t.stop := by
  obtain ⟨e, h⟩ := Parser.holds_iff.1 h
  obtain ⟨q, hq, hh, hlast⟩ := advance_eq_until h
  exact ⟨q, hq d, Parser.holds_iff.2 ⟨e, hh⟩, hlast⟩

/-- Taking a token where there is only an error. -/
theorem advance_error {e : SyntaxError} (h : p.HoldsUntil (some e) []) :
    ∃ q, ∀ d, advance d p = .error e q := by
  obtain ⟨unread, hg, hw⟩ := h
  obtain ⟨hp, rfl⟩ := List.append_eq_nil_iff.1 hw
  obtain ⟨q, hq⟩ := extend_error 1 hg (by simp)
  refine ⟨q, fun d => ?_⟩
  rw [advance_eq_ite, if_pos (by simp [hp])]
  exact bind_of_error (hq d)

/-- There is nothing to take behind the last token. -/
theorem ne_nil_of_advance {t : Token} {q : Parser} (h : p.Holds ts)
    (hq : advance d p = .ok t q) : ts ≠ [] := by
  intro hread
  subst hread
  obtain ⟨unread, e, hg, hw⟩ := h
  obtain ⟨hp, rfl⟩ := List.append_eq_nil_iff.1 hw
  rw [advance_eq_ite, if_pos (by simp [hp])] at hq
  obtain ⟨u, q', hx, hq⟩ := bind_eq_ok.1 hq
  have hw' := window_of_extend hg (by simp) hx
  change takeFirst d q' = _ at hq
  rw [takeFirst_of_nil (by rw [hw', hp]; rfl)] at hq
  cases hq

/-! ## The end of the text -/

/-- Where the lexer meets no error, only the end of the text is in the way of more tokens. -/
theorem eq_of_extend_error {n : Nat} {unread : List Token} {e : SyntaxError} {q : Parser}
    (h : p.lexer.Gives unread none) (hr : extend n d p = .error e q) :
    e = ⟨.unexpectedEnd, d.length⟩ := by
  induction n generalizing p unread with
  | zero => cases hr
  | succ n ih =>
    rw [extend] at hr
    cases unread with
    | nil =>
      cases h with
      | done h =>
        have hl : lex d p = .ok none p := by simp only [lex, h]
        rw [bind_ok hl] at hr
        change (if p.window.isEmpty then failAtEnd else pure () : Parse Unit) d p = _ at hr
        split at hr <;> cases hr
        rfl
    | cons t rest =>
      obtain ⟨lexer, hl, hd⟩ := lex_token h
      rw [bind_ok (hl d)] at hr
      exact ih (p := { p with lexer, window := p.window ++ [t] }) hd hr

/-- Looking ahead fails at the end only. -/
theorem eq_of_peekAt_error {k : Nat} {e : SyntaxError} {q : Parser} (h : p.HoldsUntil none ts)
    (hr : peekAt (k + 1 : Nat) d p = .error e q) : e = ⟨.unexpectedEnd, d.length⟩ := by
  obtain ⟨unread, hg, -⟩ := h
  have hn : ((k + 1 : Nat) - (p.window.length : Int)).toNat = k + 1 - p.window.length := by omega
  have hr' := hr
  change (extend ((k + 1 : Nat) - (p.window.length : Int)).toNat >>= _ : Parse Token) d p = _ at hr'
  rw [hn] at hr'
  rcases bind_eq_error.1 hr' with hx | ⟨u, q', hx, -⟩
  · exact eq_of_extend_error hg hx
  · rw [peekAt_of_extend hx] at hr
    split at hr <;> cases hr
    rfl

/-- Taking a token fails at the end only. -/
theorem eq_of_advance_error {e : SyntaxError} {q : Parser} (h : p.HoldsUntil none ts)
    (hr : advance d p = .error e q) : e = ⟨.unexpectedEnd, d.length⟩ := by
  cases ts with
  | cons t ts =>
    obtain ⟨q', hq, -⟩ := advance_eq_until h
    rw [hq] at hr
    cases hr
  | nil =>
    obtain ⟨unread, hg, hw⟩ := h
    obtain ⟨hp, rfl⟩ := List.append_eq_nil_iff.1 hw
    rw [advance_eq_ite, if_pos (by simp [hp])] at hr
    rcases bind_eq_error.1 hr with hx | ⟨u, q', hx, hq⟩
    · exact eq_of_extend_error hg hx
    · have hw' := window_of_extend hg (by simp) hx
      change takeFirst d q' = _ at hq
      rw [takeFirst_of_nil (by rw [hw', hp]; rfl)] at hq
      cases hq
      rfl

end Parse

end GraphSchema
