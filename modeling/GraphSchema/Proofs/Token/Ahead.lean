import GraphSchema.Proofs.Token.Local
import GraphSchema.Proofs.Token.Reached

/-!
# The token that comes next

A lexer that stands before a token of its text gives the token that is read there, or the error that
is met.

## Main definitions

* `Lexer.Before`: the next token of a lexer starts at an offset of its text.
* `Lexer.Returns`: the next token of a lexer has a kind, a place and a value.

## Main statements

* `Lexer.Before.next`, `Lexer.Before.returns_iff`: what a lexer before a token gives.
* `Lexer.Reached.before_of_next`: a lexer that gives a token of the text stands before it.
-/

namespace GraphSchema

namespace Lexer

open Scan (splitIgnored)

variable {source : Text} {i start stop : Nat} {l : Lexer} {c : CodePoint} {t value : Text}
  {kind : Token.Kind}

/-- The next token of a lexer of `source` starts at offset `i`. -/
structure Before (source : Text) (i : Nat) (l : Lexer) : Prop where
  reached : Reached source l
  started : l.started = true
  not_done : l.done = false
  start : l.place.position + (splitIgnored l.place.rest).2.1.length = i

/-- Asked for a token, the lexer gives one of this kind, place and value. -/
def Returns (l : Lexer) (kind : Token.Kind) (start stop : Nat) (value : Text) : Prop :=
  ∃ token next, l.next = .ok (some token) next ∧ token.kind = kind ∧ token.start = start ∧
    token.stop = stop ∧ token.value = value

/-- A text that starts with a token. -/
theorem before_first (hc : ¬Scan.isIgnored c ∧ c ≠ '#') :
    Before (c :: t) 0 ⟨⟨0, c :: t⟩, true, false⟩ where
  reached := .token .start rfl
  started := rfl
  not_done := rfl
  start := by
    unfold splitIgnored
    rw [if_neg hc.1, if_neg hc.2]
    rfl

/-- What is ahead behind what is ignored. -/
theorem Before.place (h : l.Before source i) :
    l.place.skip (splitIgnored l.place.rest).2.1.length = ⟨i, source.drop i⟩ := by
  have hin := h.reached.in.skip_ignored rfl
  have hpos : (l.place.skip (splitIgnored l.place.rest).2.1.length).position = i := h.start
  rw [← hpos, ← hin.rest]

/-- The lexer reads the token, and fails where this fails. -/
theorem Before.next (h : l.Before source i) (ht : source.drop i = c :: t) :
    (∃ token q comments ignored, Scan.token c ⟨i, c :: t⟩ = .ok token q ∧
      l.next = .ok (some { token with comments, ignored }) ⟨q, true, false⟩) ∨
    ∃ e q, Scan.token c ⟨i, c :: t⟩ = .error e q ∧ l.next = .error e ⟨q, true, false⟩ := by
  have hplace := h.place
  obtain ⟨p, started, done⟩ := l
  obtain rfl : started = true := h.started
  obtain rfl : done = false := h.not_done
  obtain ⟨comments, ignored, left, hs⟩ : ∃ comments ignored left,
    splitIgnored p.rest = (comments, ignored, left) := ⟨_, _, _, rfl⟩
  rw [ht, hs] at hplace
  obtain rfl : left = c :: t := (Place.rest_skip_ignored hs).symm.trans (congrArg Place.rest hplace)
  cases hn : Lexer.next ⟨p, true, false⟩ with
  | ok token next =>
    cases steps_of_next hn with
    | finish hs' => simp [hs] at hs'
    | token hs' hread =>
      rw [hs'] at hs
      cases hs
      exact .inl ⟨_, _, _, _, hplace ▸ hread, rfl⟩
  | error e next =>
    cases steps_of_next hn with
    | error hs' hread =>
      rw [hs'] at hs
      cases hs
      exact .inr ⟨_, _, hplace ▸ hread, rfl⟩

theorem Before.returns_iff (h : l.Before source i) (ht : source.drop i = c :: t) :
    l.Returns kind start stop value ↔ ∃ token q, Scan.token c ⟨i, c :: t⟩ = .ok token q ∧
      token.kind = kind ∧ token.start = start ∧ token.stop = stop ∧ token.value = value := by
  rcases h.next ht with ⟨token, q, comments, ignored, hread, hn⟩ | ⟨e, q, hread, hn⟩
  · constructor
    · rintro ⟨_, _, hn', h⟩
      rw [hn] at hn'
      cases hn'
      exact ⟨token, q, hread, h⟩
    · rintro ⟨_, _, hread', h⟩
      rw [hread] at hread'
      cases hread'
      exact ⟨_, _, hn, h⟩
  · constructor
    · rintro ⟨_, _, hn', -⟩
      rw [hn] at hn'
      cases hn'
    · rintro ⟨_, _, hread', -⟩
      rw [hread] at hread'
      cases hread'

/-- A lexer that gives a token of the text stands before it. -/
theorem Reached.before_of_next {next : Lexer} {token : Token} (hl : Reached source l)
    (h : l.next = .ok (some token) next) (hk : token.kind ≠ .start ∧ token.kind ≠ .finish) :
    l.Before source token.start ∧ ∃ c t, source.drop token.start = c :: t := by
  cases steps_of_next h with
  | start => exact absurd rfl hk.1
  | finish => exact absurd rfl hk.2
  | token hs hread =>
    rename_i p q comments ignored left c t
    have hin := hl.in.skip_ignored hs
    have hstart : t.start = p.position + ignored.length :=
      ((yields_token hl.in hs).ok hread).2.1.start
    have hahead : source.drop t.start = c :: left := by
      rw [hstart, ← Place.rest_skip_ignored hs, hin.rest]
      rfl
    refine ⟨⟨hl, rfl, rfl, ?_⟩, c, left, hahead⟩
    rw [hs]
    exact hstart.symm

end Lexer

end GraphSchema
